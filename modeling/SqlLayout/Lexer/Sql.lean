import SqlLayout.Lexer.Scan

/-!
# The rules of SQL

Rules stand in order of priority: numbers before punctuation, keywords of several words before bare
words, comments before operators. A number keeps off the characters that words and quoted texts are
made of, so digits of `foo2` or beside a quote are not cut out as a number.
-/

namespace SqlLayout.Sql

open Pattern CharSet

/-! ## Parts of rules -/

/-- One of the listed characters. -/
def oneOf (s : String) : Pattern := char (ofChars s.toList)

/-- Any character but the listed ones. -/
def noneOf (s : String) : Pattern := char (ofChars s.toList).complement

/-- A fixed text. -/
def phrase (s : String) : Pattern := Pattern.text s.toList

/-- A decimal digit. -/
def digit : Pattern := char (ofClass .digit)

/-- Blanks, at least one. -/
def gap : Pattern := plus (char (ofClass .blank))

/-- The characters that may not touch a number. -/
def numberBoundary : CharSet :=
  (ofClass .word).union (ofChars "$#'\"`".toList)

/-- A number that no word and no quoted text touches. -/
def number (body : List Pattern) : Pattern :=
  all ([behind false 1 (char numberBoundary), opt (oneOf "-")] ++ body ++
    [ahead false (char numberBoundary)])

/-- Words with gaps between them; the last one ends at a word edge. -/
def keywords (words : List String) : Pattern :=
  all ((words.map phrase).intersperse gap ++ [anchor .wordEdge])

/-- One of the words and a gap, or nothing. -/
def maybeWord (words : List String) : Pattern :=
  opt (choice (words.map fun w => seq (phrase w) gap))

/-! ## The rules -/

/-- Line terminators, as many as there are. -/
def lineBreaks : Rule := ⟨plus (oneOf "\r\n"), .newline⟩

/-- Other blanks, as many as there are. -/
def blanks : Rule :=
  ⟨plus (char { members := [.outside .blank, .char '\r', .char '\n'], negated := true }),
    .whitespace⟩

/-- From two hyphens to the end of the line, its terminator included. -/
def comment : Rule :=
  ⟨all [phrase "--", star (noneOf "\r\n"),
    choice [phrase "\r\n", oneOf "\r", oneOf "\n", anchor .textEnd]], .comment⟩

/-- The star. -/
def wildcard : Rule := ⟨oneOf "*", .wildcard⟩

/-- A number with an exponent. -/
def exponentNumber : Rule :=
  ⟨number [plus digit, opt (seq (oneOf ".") (plus digit)), oneOf "eE", opt (oneOf "-+"),
    plus digit], .numberFloat⟩

/-- A number with a decimal point. -/
def pointNumber : Rule :=
  ⟨number [choice [all [plus digit, oneOf ".", star digit], seq (oneOf ".") (plus digit)]],
    .numberFloat⟩

/-- A number of digits alone. -/
def wholeNumber : Rule := ⟨number [plus digit], .numberInteger⟩

/-- A text in single quotes; a quote inside is doubled or stands after a backslash. -/
def singleQuoted : Rule :=
  ⟨all [oneOf "'", star (choice [phrase "''", phrase "\\'", noneOf "'"]), oneOf "'"], .string⟩

/-- A text in back quotes; a quote inside stands after a backslash. -/
def backQuoted : Rule :=
  ⟨all [oneOf "`", star (choice [phrase "\\`", noneOf "`"]), oneOf "`"], .string⟩

/-- A join with its sides and manner. -/
def join : Rule :=
  ⟨all [opt (choice [
      seq (maybeWord ["LEFT", "RIGHT", "FULL"]) (maybeWord ["INNER", "OUTER", "STRAIGHT"]),
      maybeWord ["CROSS", "NATURAL"]]),
    phrase "JOIN", anchor .wordEdge], .keyword⟩

/-- `ORDER BY`. -/
def orderBy : Rule := ⟨keywords ["ORDER", "BY"], .keyword⟩

/-- `GROUP BY`. -/
def groupBy : Rule := ⟨keywords ["GROUP", "BY"], .keyword⟩

/-- `UNION ALL`. -/
def unionAll : Rule := ⟨keywords ["UNION", "ALL"], .keyword⟩

/-- A run of comparison signs. -/
def comparison : Rule := ⟨plus (oneOf "<>=~!"), .operator⟩

/-- A run of arithmetic signs that a word follows. -/
def arithmeticBeforeWord : Rule :=
  ⟨seq (plus (oneOf "+/@#%^&|-")) (anchor .wordEdge), .operator⟩

/-- A bare word. -/
def word : Rule :=
  ⟨seq (char (ofClass .word)) (star (char ((ofChars "$#".toList).union (ofClass .word)))),
    .useAsKeyword⟩

/-- One punctuation mark. -/
def punctuation : Rule := ⟨oneOf ";()[],.", .punctuation⟩

/-- A run of arithmetic signs. -/
def arithmetic : Rule := ⟨plus (oneOf "+/@#%^&|-"), .operator⟩

/-- All rules, by priority. -/
def rules : List Rule :=
  [lineBreaks, blanks, comment, wildcard, exponentNumber, pointNumber, wholeNumber, singleQuoted,
    backQuoted, join, orderBy, groupBy, unionAll, comparison, arithmeticBeforeWord, word,
    punctuation, arithmetic]

/-- The keywords of one word. -/
def keywordTable : List (Text × Kind) :=
  [("SELECT".toList, .keyword), ("FROM".toList, .keyword), ("WHERE".toList, .keyword),
    ("AS".toList, .keyword), ("WITH".toList, .keywordCte), ("AND".toList, .keyword),
    ("OR".toList, .keyword), ("NOT".toList, .keyword), ("IS".toList, .keyword),
    ("NULL".toList, .keyword), ("LIKE".toList, .keyword), ("IN".toList, .keyword),
    ("ORDER".toList, .keyword), ("BY".toList, .keyword), ("UNION".toList, .keyword)]

/-- The lexer of SQL. -/
def lexer : Lexer := ⟨rules, keywordTable⟩

/-- The scan of a query by the rules of SQL. -/
def scan (t : Text) : Lexer.Scan := lexer.scan t

/-- The tokens of a query, as far as the rules of SQL cut it. -/
def tokens (t : Text) : List Token := (scan t).tokens

end SqlLayout.Sql
