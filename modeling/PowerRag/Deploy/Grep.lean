import PowerRag.Text.Pattern

/-!
`grep` as `deploy.sh` calls it: the pattern is a POSIX basic regular expression and a
line is kept when some part of it matches. The parser covers ordinary characters, `\`
escapes, `.`, bracket expressions with ranges and `^` negation, `*`, a leading `^` and a
trailing `$`; a `*` that starts the expression, and `^` or `$` anywhere else, are
ordinary characters. Character classes, intervals, groups and back-references are not
read: no pattern the script builds from a path without `[` and `\` contains them.
-/

namespace PowerRag.Deploy

open PowerRag.Text

structure Bre where
  atStart : Bool
  pieces : List Piece
  atEnd : Bool

/-- The members of a bracket expression up to its closing `]`, and the text after it. -/
def bracketBody : List Char → Option (List (Char × Char) × List Char)
  | [] => none
  | ']' :: rest => some ([], rest)
  | a :: '-' :: b :: rest =>
      if b = ']' then some ([(a, a), ('-', '-')], rest)
      else (bracketBody rest).map fun r => ((a, b) :: r.1, r.2)
  | a :: rest => (bracketBody rest).map fun r => ((a, a) :: r.1, r.2)

/-- A bracket expression after its `[`; a `]` right after `[` or `[^` is a member. -/
def bracket : List Char → Option (Atom × List Char)
  | '^' :: ']' :: rest => (bracketBody rest).map fun r => (.bracket true ((']', ']') :: r.1), r.2)
  | '^' :: rest => (bracketBody rest).map fun r => (.bracket true r.1, r.2)
  | ']' :: rest => (bracketBody rest).map fun r => (.bracket false ((']', ']') :: r.1), r.2)
  | rest => (bracketBody rest).map fun r => (.bracket false r.1, r.2)

def breAtom : List Char → Option (Atom × List Char)
  | [] => none
  | ['\\'] => none
  | '\\' :: c :: rest => some (.char c, rest)
  | '.' :: rest => some (.any, rest)
  | '[' :: rest => bracket rest
  | c :: rest => some (.char c, rest)

/-- The pieces of an expression body and whether it ends in the anchor `$`; `fuel`
bounds the number of atoms. -/
def brePieces : Nat → List Char → Option (List Piece × Bool)
  | _, [] => some ([], false)
  | _, ['$'] => some ([], true)
  | 0, _ :: _ => none
  | n + 1, s =>
      match breAtom s with
      | none => none
      | some (a, '*' :: rest) => (brePieces n rest).map fun r => (.many a :: r.1, r.2)
      | some (a, rest) => (brePieces n rest).map fun r => (.one a :: r.1, r.2)

def parseBre (s : List Char) : Option Bre :=
  let (atStart, body) : Bool × List Char := match s with
    | '^' :: b => (true, b)
    | b => (false, b)
  let (lead, body) : List Piece × List Char := match body with
    | '*' :: b => ([.one (.char '*')], b)
    | b => ([], b)
  (brePieces body.length body).map fun r => ⟨atStart, lead ++ r.1, r.2⟩

/-- `grep P` on one line; a pattern grep cannot parse is an error and keeps nothing. -/
def grep (pattern line : List Char) : Bool :=
  match parseBre pattern with
  | none => false
  | some b =>
      let k : List Char → Option Unit := fun rest =>
        if b.atEnd && !rest.isEmpty then none else some ()
      if b.atStart then (run b.pieces line k).isSome else (find b.pieces k line).isSome

/-- The atom an ordinary character or `.` stands for. -/
def literalAtom (c : Char) : Atom := if c = '.' then .any else .char c

/-- A pattern with no `[`, `\` or `*`, not starting with `^` and not ending in `$`:
every character stands for itself, and `.` for any character. -/
structure PlainPattern (s : List Char) : Prop where
  no_bracket : '[' ∉ s
  no_escape : '\\' ∉ s
  no_star : '*' ∉ s
  head_ne : s.head? ≠ some '^'
  last_ne : s.getLast? ≠ some '$'

theorem brePieces_one {n : Nat} {s rest : List Char} {a : Atom}
    (h : breAtom s = some (a, rest)) (hs : s ≠ ['$']) (hr : rest.head? ≠ some '*') :
    brePieces (n + 1) s = (brePieces n rest).map fun r => (.one a :: r.1, r.2) := by
  have hne : s ≠ [] := by rintro rfl; simp [breAtom] at h
  rw [brePieces.eq_4 s n hne hs, h]
  split <;> simp_all

theorem breAtom_plain {c : Char} (s : List Char) (h1 : c ≠ '[') (h2 : c ≠ '\\') :
    breAtom (c :: s) = some (literalAtom c, s) := by
  unfold breAtom
  split <;> simp_all [literalAtom]

theorem brePieces_plain (s : List Char) (n : Nat) (h1 : '[' ∉ s) (h2 : '\\' ∉ s)
    (h3 : '*' ∉ s) (h4 : s.getLast? ≠ some '$') (hn : s.length ≤ n) :
    brePieces n s = some (s.map (.one ∘ literalAtom), false) := by
  induction s generalizing n with
  | nil => cases n <;> rfl
  | cons c s ih =>
      obtain ⟨n, rfl⟩ : ∃ m, n = m + 1 := ⟨n - 1, by simp at hn; omega⟩
      simp only [List.mem_cons, not_or] at h1 h2 h3
      have hs : s.getLast? ≠ some '$' := by
        cases s with
        | nil => simp
        | cons d s => simpa [List.getLast?_cons_cons] using h4
      have hne : c :: s ≠ ['$'] := by rintro ⟨rfl, rfl⟩; simp at h4
      have hr : s.head? ≠ some '*' := fun h => h3.2 (List.mem_of_mem_head? h)
      rw [brePieces_one (breAtom_plain s (Ne.symm h1.1) (Ne.symm h2.1)) hne hr,
        ih n h1.2 h2.2 h3.2 hs (by simp at hn; omega)]
      rfl

theorem parseBre_plain {s : List Char} (h : PlainPattern s) :
    parseBre s = some ⟨false, s.map (.one ∘ literalAtom), false⟩ := by
  have hp := brePieces_plain s s.length h.no_bracket h.no_escape h.no_star h.last_ne le_rfl
  cases s with
  | nil => rfl
  | cons c s =>
      have h1 : c ≠ '^' := fun hc => h.head_ne (by simp [hc])
      have h2 : c ≠ '*' := fun hc => h.no_star (by simp [hc])
      simp only [parseBre]
      split
      · simp_all
      · split
        · simp_all
        · simpa using hp

/-- Without a `.`, a plain pattern matches exactly its own text. -/
theorem matches_literal_iff {w m : List Char} (hw : '.' ∉ w) :
    Matches (w.map (.one ∘ literalAtom)) m ↔ m = w := by
  induction w generalizing m with
  | nil => simp [Matches]
  | cons c w ih =>
      simp only [List.mem_cons, not_or] at hw
      simp only [List.map_cons, Function.comp, Matches, literalAtom, Ne.symm hw.1, if_false,
        Atom.accepts, beq_iff_eq, ih hw.2]
      constructor
      · rintro ⟨d, t, rfl, rfl, rfl⟩
        rfl
      · rintro rfl
        exact ⟨c, w, rfl, rfl, rfl⟩

theorem matches_literal_self (w : List Char) : Matches (w.map (.one ∘ literalAtom)) w := by
  induction w with
  | nil => rfl
  | cons c w ih =>
      refine ⟨c, w, rfl, ?_, ih⟩
      by_cases hc : c = '.' <;> simp [literalAtom, Atom.accepts, hc]

theorem grep_plain {pat : List Char} (h : PlainPattern pat) (line : List Char) :
    grep pat line = test (pat.map (.one ∘ literalAtom)) line := by
  simp [grep, parseBre_plain h, test]

/-- A plain pattern keeps every line it occurs in. -/
theorem grep_of_infix {pat line : List Char} (h : PlainPattern pat) (hin : pat <:+: line) :
    grep pat line = true := by
  obtain ⟨x, y, rfl⟩ := hin
  rw [grep_plain h, test_iff]
  exact ⟨x, pat, y, rfl, matches_literal_self pat⟩

/-- Without a `.`, a plain pattern keeps exactly the lines it occurs in. -/
theorem grep_iff_infix {pat line : List Char} (h : PlainPattern pat) (hw : '.' ∉ pat) :
    grep pat line = true ↔ pat <:+: line := by
  rw [grep_plain h, test_iff]
  constructor
  · rintro ⟨x, m, y, rfl, hm⟩
    exact ⟨x, y, by rw [(matches_literal_iff hw).mp hm]⟩
  · rintro ⟨x, y, rfl⟩
    exact ⟨x, pat, y, rfl, matches_literal_self pat⟩

end PowerRag.Deploy
