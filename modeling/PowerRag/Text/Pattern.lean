import Mathlib.Data.List.Infix

/-!
Regular expressions without alternation or groups, which is all that `deploy.sh`'s `grep`
patterns and the patcher's JavaScript regexes use: a sequence of pieces, each an atom
matching one character, or an atom under `*`. `run` is the backtracking matcher, greedy
as in JavaScript (the longest run of a `*` first, first success wins); `Matches` is the
language of a pattern. Texts are character lists.
-/

namespace PowerRag.Text

/-- JavaScript's `\s`: the WhiteSpace and LineTerminator code points of ECMAScript. -/
def isJsSpace (c : Char) : Bool :=
  c = '\t' || c = '\n' || c.toNat = 0x0B || c.toNat = 0x0C || c = '\r' || c = ' ' ||
  c.toNat = 0xA0 || c.toNat = 0x1680 || (0x2000 ≤ c.toNat && c.toNat ≤ 0x200A) ||
  c.toNat = 0x2028 || c.toNat = 0x2029 || c.toNat = 0x202F || c.toNat = 0x205F ||
  c.toNat = 0x3000 || c.toNat = 0xFEFF

inductive Atom
  | char (c : Char)
  | any
  | space
  /-- A bracket expression: its ranges (a single character is a range of one), negated
  by a leading `^`. -/
  | bracket (negated : Bool) (ranges : List (Char × Char))
  deriving Repr

def Atom.accepts : Atom → Char → Bool
  | .char c, d => d == c
  | .any, _ => true
  | .space, d => isJsSpace d
  | .bracket neg rs, d => neg != rs.any (fun r => r.1 ≤ d && d ≤ r.2)

inductive Piece
  | one (a : Atom)
  | many (a : Atom)
  deriving Repr

/-- The pattern of a text taken literally. -/
def lit (w : List Char) : List Piece := w.map (.one ∘ .char)

/-- The language of a pattern. -/
def Matches : List Piece → List Char → Prop
  | [], s => s = []
  | .one a :: ps, s => ∃ c t, s = c :: t ∧ a.accepts c = true ∧ Matches ps t
  | .many a :: ps, s => ∃ u t, s = u ++ t ∧ (∀ c ∈ u, a.accepts c = true) ∧ Matches ps t

/-- `a*` in front of `s`, greedy: the longest run is tried first and given back one
character at a time until `k` accepts the rest. -/
def Atom.star {α : Type} (a : Atom) : List Char → (List Char → Option α) → Option α
  | [], k => k []
  | c :: s, k =>
      match (if a.accepts c then a.star s k else none) with
      | some r => some r
      | none => k (c :: s)

/-- Backtracking match of a pattern at the front of `s`; `k` receives the text after the
match and the first answer it gives is returned. -/
def run {α : Type} : List Piece → List Char → (List Char → Option α) → Option α
  | [], s, k => k s
  | .one _ :: _, [], _ => none
  | .one a :: ps, c :: s, k => if a.accepts c then run ps s k else none
  | .many a :: ps, s, k => a.star s fun t => run ps t k

/-- The leftmost position of `s` where the pattern matches: the text before it, and the
answer of `k` there. -/
def find {α : Type} (ps : List Piece) (k : List Char → Option α) :
    List Char → Option (List Char × α)
  | [] => (run ps [] k).map ([], ·)
  | c :: s =>
      match run ps (c :: s) k with
      | some r => some ([], r)
      | none => (find ps k s).map fun r => (c :: r.1, r.2)

/-- `regex.test(s)`: the pattern matches somewhere in `s`. -/
def test (ps : List Piece) (s : List Char) : Bool := (find ps (fun _ => some ()) s).isSome

section Lemmas

variable {α : Type}

theorem star_cons_isSome (a : Atom) (c : Char) (s : List Char) (k : List Char → Option α) :
    (a.star (c :: s) k).isSome = (a.accepts c && (a.star s k).isSome || (k (c :: s)).isSome) := by
  by_cases hc : a.accepts c
  · cases h : a.star s k <;> simp [Atom.star, hc, h]
  · simp [Atom.star, hc]

theorem star_isSome (a : Atom) (s : List Char) (k : List Char → Option α) :
    (a.star s k).isSome ↔
      ∃ u t, s = u ++ t ∧ (∀ c ∈ u, a.accepts c = true) ∧ (k t).isSome := by
  induction s with
  | nil =>
      simp only [Atom.star]
      constructor
      · intro h
        exact ⟨[], [], rfl, by simp, h⟩
      · rintro ⟨u, t, hs, -, ht⟩
        obtain ⟨rfl, rfl⟩ := List.nil_eq_append_iff.mp hs
        exact ht
  | cons c s ih =>
      rw [star_cons_isSome]
      simp only [Bool.or_eq_true, Bool.and_eq_true, ih, List.cons_eq_append_iff]
      constructor
      · rintro (⟨hc, u, t, rfl, hu, ht⟩ | h)
        · exact ⟨c :: u, t, Or.inr ⟨u, rfl, rfl⟩,
            List.forall_mem_cons.mpr ⟨hc, hu⟩, ht⟩
        · exact ⟨[], c :: s, Or.inl ⟨rfl, rfl⟩, by simp, h⟩
      · rintro ⟨u, t, ⟨rfl, rfl⟩ | ⟨u, rfl, rfl⟩, hu, ht⟩
        · exact Or.inr ht
        · exact Or.inl ⟨hu c (by simp), u, t, rfl, fun d hd => hu d (by simp [hd]), ht⟩

/-- The matcher finds a match exactly when the pattern's language has a prefix of `s`
on whose rest `k` answers. -/
theorem run_isSome (ps : List Piece) (s : List Char) (k : List Char → Option α) :
    (run ps s k).isSome ↔ ∃ u t, s = u ++ t ∧ Matches ps u ∧ (k t).isSome := by
  induction ps generalizing s k with
  | nil =>
      simp only [run, Matches]
      constructor
      · intro h
        exact ⟨[], s, rfl, rfl, h⟩
      · rintro ⟨u, t, rfl, rfl, ht⟩
        exact ht
  | cons p ps ih =>
      cases p with
      | one a =>
          cases s with
          | nil => simp [run, Matches]
          | cons c s =>
              by_cases hc : a.accepts c
              · simp only [run, hc, if_true, ih, Matches]
                constructor
                · rintro ⟨u, t, rfl, hu, ht⟩
                  exact ⟨c :: u, t, rfl, ⟨c, u, rfl, hc, hu⟩, ht⟩
                · rintro ⟨_, t, hs, ⟨d, u, rfl, -, hu⟩, ht⟩
                  simp only [List.cons_append, List.cons.injEq] at hs
                  obtain ⟨rfl, rfl⟩ := hs
                  exact ⟨u, t, rfl, hu, ht⟩
              · simp only [run, hc, Bool.false_eq_true, if_false, Option.isSome_none,
                  false_iff, Matches]
                rintro ⟨_, t, hs, ⟨d, u, rfl, hd, -⟩, -⟩
                simp only [List.cons_append, List.cons.injEq] at hs
                exact hc (hs.1 ▸ hd)
      | many a =>
          simp only [run, star_isSome, ih, Matches]
          constructor
          · rintro ⟨u, t, rfl, hu, v, w, rfl, hv, hw⟩
            exact ⟨u ++ v, w, by simp, ⟨u, v, rfl, hu, hv⟩, hw⟩
          · rintro ⟨_, w, rfl, ⟨u, v, rfl, hu, hv⟩, hw⟩
            exact ⟨u, v ++ w, by simp, hu, v, w, rfl, hv, hw⟩

theorem find_isSome (ps : List Piece) (k : List Char → Option α) (s : List Char) :
    (find ps k s).isSome ↔ ∃ x y, s = x ++ y ∧ (run ps y k).isSome := by
  induction s with
  | nil =>
      simp only [find, Option.isSome_map']
      constructor
      · intro h
        exact ⟨[], [], rfl, h⟩
      · rintro ⟨x, y, hs, h⟩
        obtain ⟨rfl, rfl⟩ := List.nil_eq_append_iff.mp hs
        exact h
  | cons c s ih =>
      simp only [find]
      split
      · rename_i r hr
        exact iff_of_true rfl ⟨[], c :: s, rfl, by simp [hr]⟩
      · rename_i hr
        simp only [Option.isSome_map', ih]
        constructor
        · rintro ⟨x, y, rfl, h⟩
          exact ⟨c :: x, y, rfl, h⟩
        · rintro ⟨_ | ⟨d, x⟩, y, hs, h⟩
          · simp only [List.nil_append] at hs
            simp [← hs, hr] at h
          · simp only [List.cons_append, List.cons.injEq] at hs
            obtain ⟨rfl, rfl⟩ := hs
            exact ⟨x, y, rfl, h⟩

theorem test_iff (ps : List Piece) (s : List Char) :
    test ps s = true ↔ ∃ x m y, s = x ++ m ++ y ∧ Matches ps m := by
  simp only [test, find_isSome, run_isSome, Option.isSome_some, and_true]
  constructor
  · rintro ⟨x, _, rfl, m, y, rfl, hm⟩
    exact ⟨x, m, y, by simp, hm⟩
  · rintro ⟨x, m, y, rfl, hm⟩
    exact ⟨x, m ++ y, by simp, m, y, rfl, hm⟩

theorem matches_append (ps qs : List Piece) (s : List Char) :
    Matches (ps ++ qs) s ↔ ∃ u v, s = u ++ v ∧ Matches ps u ∧ Matches qs v := by
  induction ps generalizing s with
  | nil =>
      constructor
      · intro h
        exact ⟨[], s, rfl, rfl, h⟩
      · rintro ⟨_, v, rfl, rfl, hv⟩
        exact hv
  | cons p ps ih =>
      rw [List.cons_append]
      cases p with
      | one a =>
          simp only [Matches, ih]
          constructor
          · rintro ⟨c, _, rfl, hc, u, v, rfl, hu, hv⟩
            exact ⟨c :: u, v, rfl, ⟨c, u, rfl, hc, hu⟩, hv⟩
          · rintro ⟨_, v, rfl, ⟨c, u, rfl, hc, hu⟩, hv⟩
            exact ⟨c, u ++ v, rfl, hc, u, v, rfl, hu, hv⟩
      | many a =>
          simp only [Matches, ih]
          constructor
          · rintro ⟨x, _, rfl, hx, u, v, rfl, hu, hv⟩
            exact ⟨x ++ u, v, by simp, ⟨x, u, rfl, hx, hu⟩, hv⟩
          · rintro ⟨_, v, rfl, ⟨x, u, rfl, hx, hu⟩, hv⟩
            exact ⟨x, u ++ v, by simp, hx, u, v, rfl, hu, hv⟩

theorem matches_lit_append (w : List Char) (ps : List Piece) (s : List Char) :
    Matches (lit w ++ ps) s ↔ ∃ t, s = w ++ t ∧ Matches ps t := by
  induction w generalizing s with
  | nil => simp [lit]
  | cons c w ih =>
      simp only [lit, List.map_cons, Function.comp, List.cons_append] at ih ⊢
      simp only [Matches, Atom.accepts, beq_iff_eq, ih]
      constructor
      · rintro ⟨d, _, rfl, rfl, t, rfl, ht⟩
        exact ⟨t, rfl, ht⟩
      · rintro ⟨t, rfl, ht⟩
        exact ⟨c, _, rfl, rfl, t, rfl, ht⟩

theorem matches_lit (w s : List Char) : Matches (lit w) s ↔ s = w := by
  simpa [Matches] using matches_lit_append w [] s

theorem matches_many (a : Atom) (s : List Char) :
    Matches [.many a] s ↔ ∀ c ∈ s, a.accepts c = true := by
  simp [Matches]

/-- `regex.test` is the language of the pattern between two `.*`. -/
theorem test_iff_matches (ps : List Piece) (s : List Char) :
    test ps s = true ↔ Matches ([.many .any] ++ ps ++ [.many .any]) s := by
  simp only [test_iff, matches_append, matches_many, Atom.accepts, implies_true, and_true,
    true_and]
  constructor
  · rintro ⟨x, m, y, rfl, hm⟩
    exact ⟨x ++ m, y, rfl, x, m, rfl, hm⟩
  · rintro ⟨_, y, rfl, x, m, rfl, hm⟩
    exact ⟨x, m, y, rfl, hm⟩

/-- `Matches` is decided by running the matcher with a continuation that wants the end of
the text. -/
theorem matches_iff_run (ps : List Piece) (s : List Char) :
    Matches ps s ↔ (run ps s fun t => if t = [] then some () else none).isSome := by
  rw [run_isSome]
  constructor
  · intro h
    exact ⟨s, [], by simp, h, by simp⟩
  · rintro ⟨u, t, rfl, hu, ht⟩
    obtain rfl : t = [] := by simpa using ht
    simpa using hu

theorem star_eq_some {a : Atom} {s : List Char} {k : List Char → Option α} {r : α}
    (h : a.star s k = some r) :
    ∃ u t, s = u ++ t ∧ (∀ c ∈ u, a.accepts c = true) ∧ k t = some r := by
  induction s with
  | nil => exact ⟨[], [], rfl, by simp, h⟩
  | cons c s ih =>
      simp only [Atom.star] at h
      by_cases hc : a.accepts c
      · cases hs : a.star s k with
        | some r' =>
            simp only [hc, if_true, hs, Option.some.injEq] at h
            obtain ⟨u, t, rfl, hu, ht⟩ := ih (hs.trans (congrArg some h))
            exact ⟨c :: u, t, rfl, List.forall_mem_cons.mpr ⟨hc, hu⟩, ht⟩
        | none =>
            simp only [hc, if_true, hs] at h
            exact ⟨[], c :: s, rfl, by simp, h⟩
      · simp only [hc, Bool.false_eq_true, if_false] at h
        exact ⟨[], c :: s, rfl, by simp, h⟩

/-- The answer the matcher returns comes from a prefix in the pattern's language. -/
theorem run_eq_some {ps : List Piece} {s : List Char} {k : List Char → Option α} {r : α}
    (h : run ps s k = some r) : ∃ u t, s = u ++ t ∧ Matches ps u ∧ k t = some r := by
  induction ps generalizing s k with
  | nil => exact ⟨[], s, rfl, rfl, h⟩
  | cons p ps ih =>
      cases p with
      | one a =>
          cases s with
          | nil => simp [run] at h
          | cons c s =>
              by_cases hc : a.accepts c
              · simp only [run, hc, if_true] at h
                obtain ⟨u, t, rfl, hu, ht⟩ := ih h
                exact ⟨c :: u, t, rfl, ⟨c, u, rfl, hc, hu⟩, ht⟩
              · simp [run, hc] at h
      | many a =>
          obtain ⟨u, t, rfl, hu, ht⟩ := star_eq_some h
          obtain ⟨v, t', rfl, hv, ht'⟩ := ih ht
          exact ⟨u ++ v, t', by simp, ⟨u, v, rfl, hu, hv⟩, ht'⟩

/-- `find` answers at the leftmost position where the matcher succeeds. -/
theorem find_eq_some {ps : List Piece} {k : List Char → Option α} {s x : List Char} {r : α}
    (h : find ps k s = some (x, r)) : ∃ y, s = x ++ y ∧ run ps y k = some r ∧
      ∀ x' y', s = x' ++ y' → x'.length < x.length → run ps y' k = none := by
  induction s generalizing x with
  | nil =>
      simp only [find, Option.map_eq_some', Prod.mk.injEq] at h
      obtain ⟨r', hr, rfl, rfl⟩ := h
      exact ⟨[], rfl, hr, fun _ _ _ hlt => absurd hlt (Nat.not_lt_zero _)⟩
  | cons c s ih =>
      simp only [find] at h
      split at h
      · rename_i r' hr
        simp only [Option.some.injEq, Prod.mk.injEq] at h
        obtain ⟨rfl, rfl⟩ := h
        exact ⟨c :: s, rfl, hr, fun _ _ _ hlt => absurd hlt (Nat.not_lt_zero _)⟩
      · rename_i hr
        simp only [Option.map_eq_some', Prod.mk.injEq] at h
        obtain ⟨⟨x', r'⟩, hf, rfl, rfl⟩ := h
        obtain ⟨y, rfl, hy, hleft⟩ := ih hf
        refine ⟨y, rfl, hy, fun x'' y' hs hlt => ?_⟩
        cases x'' with
        | nil =>
            rw [List.nil_append] at hs
            exact hs ▸ hr
        | cons d x'' =>
            simp only [List.cons_append, List.cons.injEq] at hs
            exact hleft x'' y' hs.2 (by simpa using hlt)

end Lemmas

section Occurrences

/-- An occurrence of `p` in `a ++ b` starts in `b` when the first character of `p` does
not occur in `a`. -/
theorem infix_of_append_of_head {p a b : List Char} (ha : ∀ c ∈ p.head?, c ∉ a)
    (h : p <:+: a ++ b) : p <:+: b := by
  obtain ⟨s, t, hst⟩ := h
  rw [List.append_assoc] at hst
  rcases List.append_eq_append_iff.mp hst with ⟨a', rfl, h2⟩ | ⟨c', rfl, rfl⟩
  · cases a' with
    | nil => exact ⟨[], t, by simpa using h2⟩
    | cons e a' =>
        cases p with
        | nil => exact List.nil_infix
        | cons d p =>
            obtain ⟨rfl, -⟩ := List.cons.inj h2
            exact absurd (by simp) (ha d rfl)
  · exact ⟨c', t, by simp⟩

/-- An occurrence of `p` in `a ++ c :: b`, with `c` not in `p`, lies in `a` or in `b`. -/
theorem infix_of_append_sep {p a b : List Char} {c : Char} (hc : c ∉ p)
    (h : p <:+: a ++ c :: b) : p <:+: a ∨ p <:+: b := by
  obtain ⟨s, t, hst⟩ := h
  rw [List.append_assoc] at hst
  rcases List.append_eq_append_iff.mp hst with ⟨a', rfl, h2⟩ | ⟨c', rfl, h2⟩
  · rcases List.append_eq_append_iff.mp h2 with ⟨x, rfl, -⟩ | ⟨y, rfl, hy⟩
    · exact .inl ⟨s, x, by simp⟩
    · cases y with
      | nil => exact .inl ⟨s, [], by simp⟩
      | cons d y =>
          obtain ⟨rfl, -⟩ := List.cons.inj hy
          simp at hc
  · cases c' with
    | nil =>
        cases p with
        | nil => exact .inl List.nil_infix
        | cons d p =>
            obtain ⟨rfl, -⟩ := List.cons.inj h2
            simp at hc
    | cons d c' =>
        obtain ⟨-, rfl⟩ := List.cons.inj h2
        exact .inr ⟨c', t, by simp⟩

theorem not_infix_append_sep {p a b : List Char} {c : Char} (hc : c ∉ p) (ha : ¬ p <:+: a)
    (hb : ¬ p <:+: b) : ¬ p <:+: a ++ c :: b :=
  fun h => (infix_of_append_sep hc h).elim ha hb

/-- A text that lacks a character of `p` does not contain `p`. -/
theorem not_infix_of_not_mem {p s : List Char} {c : Char} (hp : c ∈ p) (hs : c ∉ s) :
    ¬ p <:+: s :=
  fun h => hs (h.subset hp)

end Occurrences

end PowerRag.Text
