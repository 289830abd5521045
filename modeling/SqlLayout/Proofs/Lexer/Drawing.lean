import SqlLayout.Lexer.Bench
import SqlLayout.Proofs.Lexer.Tiling

/-!
# What a stream gives

A stream is asked for tokens again and again, and each time the tables may be others. `Lives` says
what becomes of it: it goes on from where it stands as long as it gives all that it is asked for,
and once it falls short it gives nothing any more. The stream that is asked on its own does so
(`lives_replies`), and what its tokens have to do with the text follows from `Lives` alone.
-/

namespace SqlLayout.Lexer

/-- A stream is asked for some tokens: the tables in force, how many tokens, and the answer. -/
structure Request where
  tables : Lexer
  count : Nat
  answer : Answer

namespace Request

/-- The tokens of the answer. -/
def tokens (r : Request) : List Token :=
  match r.answer with
  | .tokens ts => ts
  | _ => []

/-- The answer is an exception. -/
def fails (r : Request) : Bool :=
  match r.answer with
  | .tokens _ => false
  | _ => true

/-- The stream has come to its end: it gave fewer tokens than it was asked for, or an exception. -/
def Ends (r : Request) : Prop := r.fails = true ∨ r.tokens.length < r.count

instance : DecidablePred Ends := fun r =>
  inferInstanceAs (Decidable (r.fails = true ∨ r.tokens.length < r.count))

end Request

/-- All tokens that were given. -/
def drawn (rs : List Request) : List Token := rs.flatMap Request.tokens

/-- What came of all requests: the tokens, or an exception. -/
def outcome (rs : List Request) : Except Failure (List Token) :=
  if rs.any Request.fails then .error (.unresolved {}) else .ok (drawn rs)

@[simp] theorem drawn_nil : drawn [] = [] := rfl

@[simp] theorem drawn_cons (r : Request) (rs : List Request) :
    drawn (r :: rs) = r.tokens ++ drawn rs := List.flatMap_cons

namespace Stream

/-- How the outcome of a request is told. -/
def told : Except UnresolvedKind (List Token) → Answer
  | .ok ts => .tokens ts
  | .error e => .failed (.failure (.unresolved e))

/-- What a stream answers, given the tables and the number of tokens for each request. -/
def replies (s : Stream) : List (Lexer × Nat) → List Request
  | [] => []
  | (lx, n) :: asks => ⟨lx, n, told (take lx n s).1⟩ :: replies (take lx n s).2 asks

end Stream

variable {lx : Lexer} {s : Text} {m n k : Nat} {ts : List Token} {r : Request} {rs : List Request}

/-! ## One request -/

/-- A request cuts tokens from where the stream stands until there are enough of them or the scan
stops; in that case the stream has ended. -/
theorem take_cases (lx : Lexer) (s : Text) (m n : Nat) :
    ∃ ts k, Cuts lx m (.at s m) ts k (.at s k) ∧
      (ts.length = n ∧ Stream.take lx n ⟨some (m, .at s m)⟩ = (.ok ts, ⟨some (k, .at s k)⟩) ∨
        ts.length < n ∧ ∃ ending, Stops lx k (.at s k) ending ∧
          Stream.take lx n ⟨some (m, .at s m)⟩ =
            (if ending = .unresolved then .error {} else .ok ts, .ended)) := by
  induction n generalizing m with
  | zero => exact ⟨[], m, .done m _, .inl ⟨rfl, rfl⟩⟩
  | succ n ih =>
    by_cases hrest : (Cursor.at s m).rest = []
    · refine ⟨[], m, .done m _, .inr ⟨Nat.succ_pos n, .complete, hrest, ?_⟩⟩
      simp [Stream.take, Stream.pull, hrest]
    · cases hnext : lx.next m (.at s m) with
      | nothing =>
        refine ⟨[], m, .done m _, .inr ⟨Nat.succ_pos n, .noMatch m, ⟨rfl, hrest, hnext⟩, ?_⟩⟩
        simp [Stream.take, Stream.pull, hrest, hnext]
      | unresolved =>
        refine ⟨[], m, .done m _, .inr ⟨Nat.succ_pos n, .unresolved, ⟨hrest, hnext⟩, ?_⟩⟩
        simp [Stream.take, Stream.pull, hrest, hnext]
      | token t e =>
        have hreads := (reads_of_next hnext).1
        have hpull : Stream.pull lx ⟨some (m, .at s m)⟩ =
            (.token t, ⟨some (m + t.value.length, .at s (m + t.value.length))⟩) := by
          simp [Stream.pull, hrest, hnext, hreads.upTo_eq, ← hreads.of_at]
        obtain ⟨ts, k, hcuts, htake⟩ := ih (m + t.value.length)
        refine ⟨t :: ts, k, .step hnext (by rwa [hreads.of_at]), ?_⟩
        rcases htake with ⟨hlen, htake⟩ | ⟨hlen, ending, hstops, htake⟩
        · refine .inl ⟨by simp [hlen], ?_⟩
          simp [Stream.take, hpull, htake, Except.map]
        · refine .inr ⟨by simpa using hlen, ending, hstops, ?_⟩
          rw [Stream.take, hpull]
          simp only [htake]
          split <;> rfl

theorem take_ended (lx : Lexer) (n : Nat) : Stream.take lx n .ended = (.ok [], .ended) := by
  cases n <;> rfl

/-! ## The life of a stream -/

/-- What a stream that stands some characters into a text answers to requests. -/
inductive Lives (s : Text) : Nat → List Request → Prop
  | idle (m : Nat) : Lives s m []
  /-- All tokens that were asked for are given. -/
  | gives {lx : Lexer} {m k : Nat} {ts : List Token} {rs : List Request}
      (cuts : Cuts lx m (.at s m) ts k (.at s k)) (more : Lives s k rs) :
      Lives s m (⟨lx, ts.length, .tokens ts⟩ :: rs)
  /-- The scan stops before there are enough tokens. -/
  | ends {lx : Lexer} {m k n : Nat} {ts : List Token} {ending : Ending} {rs : List Request}
      (cuts : Cuts lx m (.at s m) ts k (.at s k)) (short : ts.length < n)
      (stops : Stops lx k (.at s k) ending) (silent : ∀ r ∈ rs, r.answer = .tokens []) :
      Lives s m (⟨lx, n, Stream.told (if ending = .unresolved then .error {} else .ok ts)⟩ :: rs)

theorem silent_replies (asks : List (Lexer × Nat)) :
    ∀ r ∈ Stream.replies .ended asks, r.answer = .tokens [] := by
  induction asks with
  | nil => simp [Stream.replies]
  | cons ask asks ih =>
    intro r hr
    rw [Stream.replies, take_ended] at hr
    rcases List.mem_cons.1 hr with rfl | hr
    · rfl
    · exact ih r hr

theorem lives_replies (s : Text) (m : Nat) (asks : List (Lexer × Nat)) :
    Lives s m (Stream.replies ⟨some (m, .at s m)⟩ asks) := by
  induction asks generalizing m with
  | nil => exact .idle m
  | cons ask asks ih =>
    obtain ⟨lx, n⟩ := ask
    obtain ⟨ts, k, hcuts, ⟨rfl, htake⟩ | ⟨hlen, ending, hstops, htake⟩⟩ := take_cases lx s m n
    · rw [Stream.replies, htake]
      exact .gives hcuts (ih k)
    · rw [Stream.replies, htake]
      exact .ends hcuts hlen hstops (silent_replies asks)

/-! ## Tokens and text -/

/-- The tokens lie side by side on the text from this place on. -/
structure Adjoining (s : Text) (m : Nat) (ts : List Token) : Prop where
  proper : ∀ t ∈ ts, t.value ≠ []
  starts : ∀ t ∈ ts.head?, t.offset = m
  adjoins : ts.IsChain fun t u => u.offset = t.stop
  slices : ∀ t ∈ ts, t.value = (s.take t.stop.toNat).drop t.offset.toNat

/-- The rules account for a token at its place of the text: it is cut by the first one that
applies. -/
def Accounts (lx : Lexer) (s : Text) (t : Token) : Prop :=
  ∃ rule, lx.Decides rule (.at s t.offset.toNat) (.at s t.stop.toNat) ∧ rule.kind ≠ .unknown ∧
    t.kind = lx.resolve rule.kind t.value

theorem Cuts.accounts {c : Cursor} (h : Cuts lx m (.at s m) ts k c) :
    ∀ t ∈ ts, Accounts lx s t := by
  intro t ht
  exact Decides.of_next (h.next_offset ht)

/-- Tokens that are cut adjoin those that are cut from there on. -/
theorem Cuts.adjoining {us : List Token} (h : Cuts lx m (.at s m) ts k (.at s k))
    (hmore : Adjoining s k us) : Adjoining s m (ts ++ us) := by
  obtain ⟨hstarts, hadjoins, hlast⟩ := h.adjoins
  refine ⟨?_, ?_, ?_, ?_⟩
  · intro t ht
    rcases List.mem_append.1 ht with ht | ht
    · exact (reads_of_next (h.next_offset ht)).2.1
    · exact hmore.proper t ht
  · cases ts with
    | nil =>
      intro t ht
      exact (hmore.starts t ht).trans hlast.symm
    | cons t ts => simpa using hstarts
  · refine List.isChain_append.2 ⟨hadjoins, hmore.adjoins, fun t ht u hu => ?_⟩
    rw [hmore.starts u hu, ← hlast]
    rw [Option.mem_def.1 ht]
    rfl
  · intro t ht
    rcases List.mem_append.1 ht with ht | ht
    · exact h.slice ht
    · exact hmore.slices t ht

theorem Adjoining.nil (s : Text) (m : Nat) : Adjoining s m [] :=
  ⟨by simp, by simp, .nil, by simp⟩

variable {before after : List Request}

theorem drawn_of_silent (h : ∀ r ∈ rs, r.answer = .tokens []) : drawn rs = [] :=
  List.flatMap_eq_nil_iff.2 fun r hr => by rw [Request.tokens, h r hr]

theorem not_ends_of_full : ¬ Request.Ends ⟨lx, ts.length, .tokens ts⟩ := by
  simp [Request.Ends, Request.fails, Request.tokens]

/-- A request that the scan stops at fails or gives the tokens that were cut. -/
theorem told_tokens (ending : Ending) (ts : List Token) (lx : Lexer) (n : Nat) :
    (Request.mk lx n (Stream.told (if ending = .unresolved then .error {} else .ok ts))).tokens =
      if ending = .unresolved then [] else ts := by
  split <;> rfl

theorem told_fails (ending : Ending) (ts : List Token) (lx : Lexer) (n : Nat) :
    (Request.mk lx n (Stream.told (if ending = .unresolved then .error {} else .ok ts))).fails =
      decide (ending = .unresolved) := by
  split <;> simp_all [Request.fails, Stream.told]

theorem ends_of_short {ending : Ending} (h : ts.length < n) :
    Request.Ends ⟨lx, n, Stream.told (if ending = .unresolved then .error {} else .ok ts)⟩ := by
  rw [Request.Ends, told_fails, told_tokens]
  split
  · exact .inl (by simpa)
  · exact .inr h

theorem Lives.adjoining (h : Lives s m rs) : Adjoining s m (drawn rs) := by
  induction h with
  | idle m => exact .nil s m
  | gives cuts _ ih =>
    rw [drawn_cons]
    exact cuts.adjoining ih
  | @ends lx m k n ts ending rs cuts _ _ silent =>
    rw [drawn_cons, drawn_of_silent silent, told_tokens]
    split
    · exact .nil s m
    · exact cuts.adjoining (.nil s k)

theorem Lives.accounts (h : Lives s m rs) :
    ∀ r ∈ rs, ∀ t ∈ r.tokens, Accounts r.tables s t := by
  induction h with
  | idle m => simp
  | gives cuts _ ih =>
    intro r hr
    rcases List.mem_cons.1 hr with rfl | hr
    · exact cuts.accounts
    · exact ih r hr
  | ends cuts _ _ silent =>
    intro r hr t ht
    rcases List.mem_cons.1 hr with rfl | hr
    · rw [told_tokens] at ht
      split at ht
      · simp at ht
      · exact cuts.accounts t ht
    · rw [Request.tokens, silent r hr] at ht
      simp at ht

/-- Once a stream has ended it gives nothing. -/
theorem Lives.silent (h : Lives s m (before ++ r :: after)) (hr : r.Ends) :
    ∀ q ∈ after, q.answer = .tokens [] := by
  induction before generalizing m with
  | nil =>
    cases h with
    | gives => exact absurd hr not_ends_of_full
    | ends _ _ _ silent => exact silent
  | cons q before ih =>
    cases h with
    | gives _ more => exact ih more
    | ends _ _ _ silent => exact fun q hq => silent q (by simp [hq])

/-- A stream ends where the text ends, where its tables find nothing, or, with an exception, where
they lead to a kind that no token can have. -/
theorem Lives.stopped (h : Lives s m (before ++ r :: after)) (hr : r.Ends)
    (hbefore : ∀ q ∈ before, ¬ q.Ends) :
    ∃ k ending, Stops r.tables k (.at s k) ending ∧ r.fails = decide (ending = .unresolved) ∧
      (ending ≠ .unresolved →
        k = m + ((drawn (before ++ r :: after)).flatMap (·.value)).length) := by
  induction before generalizing m with
  | nil =>
    cases h with
    | gives => exact absurd hr not_ends_of_full
    | @ends _ _ k _ ts ending _ cuts _ stops silent =>
      refine ⟨k, ending, stops, told_fails .., fun hending => ?_⟩
      rw [List.nil_append, drawn_cons, told_tokens, if_neg hending, drawn_of_silent silent,
        List.append_nil]
      exact cuts.reads.2
  | cons q before ih =>
    cases h with
    | gives cuts more =>
      obtain ⟨k, ending, hstops, hfails, hk⟩ :=
        ih more fun q hq => hbefore q (List.mem_cons_of_mem _ hq)
      refine ⟨k, ending, hstops, hfails, fun hending => ?_⟩
      rw [hk hending, cuts.reads.2, List.cons_append, drawn_cons, List.flatMap_append,
        List.length_append, Nat.add_assoc]
      rfl
    | ends _ short _ _ => exact absurd (ends_of_short short) (hbefore _ List.mem_cons_self)

/-- If a stream comes to its end, there is a first request that it falls short of. -/
theorem exists_first_end (h : ∃ r ∈ rs, r.Ends) :
    ∃ before r after, rs = before ++ r :: after ∧ r.Ends ∧ ∀ q ∈ before, ¬ q.Ends := by
  have hfind : (rs.find? fun r => decide r.Ends).isSome := by simpa using h
  obtain ⟨r, hr⟩ := Option.isSome_iff_exists.1 hfind
  obtain ⟨hends, before, after, hsplit, hbefore⟩ := List.find?_eq_some_iff_append.1 hr
  exact ⟨before, r, after, hsplit, of_decide_eq_true hends, fun q hq => by simpa using hbefore q hq⟩

/-- Up to its end, a stream that is always asked by the same tables cuts what a scan by them cuts,
and it ends where and why the scan stops. -/
theorem Lives.exists_cuts (h : Lives s m (before ++ r :: after)) (hr : r.Ends)
    (hbefore : ∀ q ∈ before, ¬ q.Ends) (htables : ∀ q ∈ before ++ [r], q.tables = lx) :
    ∃ ts k ending, Cuts lx m (.at s m) ts k (.at s k) ∧ Stops lx k (.at s k) ending ∧
      (before ++ r :: after).any Request.fails = decide (ending = .unresolved) ∧
      (ending ≠ .unresolved → drawn (before ++ r :: after) = ts) := by
  induction before generalizing m with
  | nil =>
    cases h with
    | gives => exact absurd hr not_ends_of_full
    | @ends _ _ k _ ts ending _ cuts _ stops silent =>
      obtain rfl := htables _ (List.mem_singleton.2 rfl)
      refine ⟨ts, k, ending, cuts, stops, ?_, fun hending => ?_⟩
      · have hsilent : after.any Request.fails = false :=
          List.any_eq_false.2 fun q hq => by simp [Request.fails, silent q hq]
        rw [List.nil_append, List.any_cons, told_fails, hsilent, Bool.or_false]
      · rw [List.nil_append, drawn_cons, told_tokens, if_neg hending, drawn_of_silent silent,
          List.append_nil]
  | cons q before ih =>
    cases h with
    | gives cuts more =>
      obtain rfl := htables _ List.mem_cons_self
      obtain ⟨ts, k, ending, hcuts, hstops, hfails, hdrawn⟩ :=
        ih more (fun q hq => hbefore q (List.mem_cons_of_mem _ hq))
          fun q hq => htables q (List.mem_cons_of_mem _ hq)
      refine ⟨_, k, ending, cuts.trans hcuts, hstops, ?_, fun hending => ?_⟩
      · rw [List.cons_append, List.any_cons, hfails]
        rfl
      · rw [List.cons_append, drawn_cons, hdrawn hending]
        rfl
    | ends _ short _ _ => exact absurd (ends_of_short short) (hbefore _ List.mem_cons_self)

/-- A stream that was asked by the same tables up to its end gave the tokens of its text. -/
theorem Lives.tokenize_eq (h : Lives s 0 (before ++ r :: after)) (hr : r.Ends)
    (hbefore : ∀ q ∈ before, ¬ q.Ends) (htables : ∀ q ∈ before ++ [r], q.tables = lx) :
    lx.tokenize s false = outcome (before ++ r :: after) := by
  obtain ⟨ts, k, ending, hcuts, hstops, hfails, hdrawn⟩ := h.exists_cuts hr hbefore htables
  have hscan : lx.scan s = ⟨ts, ending⟩ := by
    rw [Cursor.at_zero] at hcuts
    exact scanFrom_eq hcuts hstops
  rw [outcome, hfails, tokenize, hscan]
  cases ending with
  | complete => rw [hdrawn (by simp)]; rfl
  | noMatch k => rw [hdrawn (by simp)]; rfl
  | unresolved => rfl

/-- What holds of all requests to a stream over a text, whatever tables were in force at each. -/
structure Lazily (s : Text) (rs : List Request) : Prop where
  /-- The tokens lie side by side from the start of the text. -/
  tiles : Adjoining s 0 (drawn rs)
  /-- Together they are a beginning of it. -/
  covers : (drawn rs).flatMap (·.value) <+: s
  /-- Each token is the one of the tables in force when it was pulled. -/
  decided : ∀ r ∈ rs, ∀ t ∈ r.tokens, Accounts r.tables s t
  /-- After its end the stream gives nothing. -/
  silent : ∀ before r after, rs = before ++ r :: after → r.Ends →
    ∀ q ∈ after, q.answer = .tokens []
  /-- It ends for the tables in force at that time: with an exception if they lead to a kind that no
  token can have, otherwise at the end of the text, where no rule applies, or where the first one
  that does is of kind `unknown`. -/
  stopped : ∀ before r after, rs = before ++ r :: after → r.Ends → (∀ q ∈ before, ¬ q.Ends) →
    if r.fails then ∃ k, r.tables.next k (.at s k) = .unresolved
    else ∃ k, k = ((drawn rs).flatMap (·.value)).length ∧ (k = s.length ∨
      (∀ rule ∈ r.tables.rules, rule.end? (.at s k) = none) ∨
      ∃ rule e, r.tables.Decides rule (.at s k) e ∧ rule.kind = .unknown)

/-- What is given is the beginning of what was left of the text. -/
theorem Lives.flatMap_prefix (h : Lives s m rs) : (drawn rs).flatMap (·.value) <+: s.drop m := by
  induction h with
  | idle m => exact List.nil_prefix
  | @gives lx m k ts rs cuts _ ih =>
    have hrest : s.drop m = ts.flatMap (·.value) ++ s.drop k := cuts.reads.1.rest_eq
    rw [drawn_cons, List.flatMap_append, hrest]
    exact (List.prefix_append_right_inj _).2 ih
  | @ends lx m k n ts ending rs cuts _ _ silent =>
    have hrest : s.drop m = ts.flatMap (·.value) ++ s.drop k := cuts.reads.1.rest_eq
    rw [drawn_cons, drawn_of_silent silent, List.append_nil, told_tokens, hrest]
    split
    · exact List.nil_prefix
    · exact List.prefix_append _ _

theorem Lives.lazily (h : Lives s 0 rs) : Lazily s rs := by
  have hcovers : (drawn rs).flatMap (·.value) <+: s := h.flatMap_prefix
  refine ⟨h.adjoining, hcovers, h.accounts, ?_, ?_⟩
  · rintro before r after rfl hr
    exact h.silent hr
  · rintro before r after rfl hr hbefore
    obtain ⟨k, ending, hstops, hfails, hk⟩ := h.stopped hr hbefore
    rw [hfails]
    cases ending with
    | unresolved => exact ⟨k, hstops.2⟩
    | complete =>
      have hlen := hk (by simp)
      have hle : s.length ≤ k := List.drop_eq_nil_iff.1 hstops
      have hge := hcovers.length_le
      exact ⟨k, by omega, .inl (by omega)⟩
    | noMatch _ =>
      have hlen := hk (by simp)
      exact ⟨k, by omega, .inr (Decides.of_next_nothing hstops.2.2)⟩

end SqlLayout.Lexer
