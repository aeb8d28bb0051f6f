import PowerRag.Text.Pattern

/-!
`String.prototype.replace`, in the two forms the Tailwind patcher calls it with.

`replaceAll w r s` is `s.replace(/w/g, r)` for a regex that is the literal text `w` and a
replacement without `$`: the text is scanned from the left, and each occurrence of `w` that
starts after the last replaced one is replaced by `r`. Its characterisation: `s` is texts free
of `w` joined by `w`, and the result is the same texts joined by `r`.

`replaceFirst g₁ g₂ template s` is `s.replace(/(g₁)(g₂)/, template)`: the leftmost match of
the two groups is replaced by the template applied to the texts of the groups (`$1`, `$2`).
-/

namespace PowerRag.Text

section Literal

variable (w r : List Char)

/-- The scan of `replaceAll`: `skip` characters of the last replaced occurrence are still to
be passed over. -/
def replaceAll.go : Nat → List Char → List Char
  | _, [] => []
  | 0, c :: s =>
      if w <+: c :: s then r ++ replaceAll.go (w.length - 1) s else c :: replaceAll.go 0 s
  | skip + 1, _ :: s => replaceAll.go skip s

def replaceAll (s : List Char) : List Char := replaceAll.go w r 0 s

example : replaceAll "ab".toList "x".toList "aabab".toList = "axx".toList := by decide

variable {w r}

theorem replaceAll_go_skip (skip : Nat) (s : List Char) :
    replaceAll.go w r skip s = replaceAll w r (s.drop skip) := by
  induction s generalizing skip with
  | nil => cases skip <;> rfl
  | cons c s ih =>
      cases skip with
      | zero => rfl
      | succ k => exact ih k

@[simp] theorem replaceAll_nil : replaceAll w r [] = [] := rfl

theorem replaceAll_miss {c : Char} {s : List Char} (h : ¬ w <+: c :: s) :
    replaceAll w r (c :: s) = c :: replaceAll w r s := by
  simp only [replaceAll, replaceAll.go, if_neg h]

theorem replaceAll_hit (hw : w ≠ []) (t : List Char) :
    replaceAll w r (w ++ t) = r ++ replaceAll w r t := by
  obtain ⟨c, w', rfl⟩ := List.exists_cons_of_ne_nil hw
  rw [replaceAll, List.cons_append, replaceAll.go,
    if_pos (List.cons_prefix_cons.mpr ⟨rfl, List.prefix_append _ _⟩), replaceAll_go_skip]
  simp

/-- Induction along the scan for a non-empty `w`: the text is empty, starts with `w`, or
starts with a character where no occurrence of `w` begins. -/
theorem scan_induct (w : List Char) (hw : w ≠ []) {motive : List Char → Prop}
    (nil : motive []) (hit : ∀ t, motive t → motive (w ++ t))
    (miss : ∀ c s, ¬ w <+: c :: s → motive s → motive (c :: s)) (s : List Char) :
    motive s := by
  induction' hn : s.length using Nat.strong_induction_on with n ih generalizing s
  cases s with
  | nil => exact nil
  | cons c s =>
      by_cases h : w <+: c :: s
      · obtain ⟨t, ht⟩ := h
        have hlt : t.length < n := by
          rw [← hn, ← ht, List.length_append, Nat.lt_add_left_iff_pos]
          exact List.length_pos.mpr hw
        rw [← ht]
        exact hit t (ih _ hlt t rfl)
      · exact miss c s h (ih _ (by simp [← hn]) s rfl)

theorem intercalate_cons_cons (sep a b : List Char) (l : List (List Char)) :
    sep.intercalate (a :: b :: l) = a ++ sep ++ sep.intercalate (b :: l) := by
  simp [List.intercalate, List.intersperse]

theorem intercalate_singleton (sep t : List Char) : sep.intercalate [t] = t := by
  simp [List.intercalate]

theorem cons_intercalate (sep : List Char) (c : Char) (a : List Char) (l : List (List Char)) :
    sep.intercalate ((c :: a) :: l) = c :: sep.intercalate (a :: l) := by
  cases l <;> rfl

theorem prefix_intercalate (sep a : List Char) (l : List (List Char)) :
    a <+: sep.intercalate (a :: l) := by
  cases l with
  | nil => simp [List.intercalate]
  | cons b l => simp [intercalate_cons_cons]

/-- The parts of `s` between the occurrences of `w` the scan of `replaceAll` replaces: no part
contains `w`, and no occurrence of `w` starts inside a part and runs into the `w` after it. -/
def ScanSplit (w : List Char) (ts : List (List Char)) : Prop :=
  (∀ u ∈ ts, ¬ w <:+: u) ∧ ∀ u ∈ ts.dropLast, ¬ w <:+: u ++ w.dropLast

instance (w : List Char) (ts : List (List Char)) : Decidable (ScanSplit w ts) :=
  inferInstanceAs (Decidable (_ ∧ _))

theorem ScanSplit.tail {t : List Char} {ts : List (List Char)} (hs : ScanSplit w (t :: ts)) :
    ScanSplit w ts := by
  refine ⟨fun u hu => hs.1 u (List.mem_cons_of_mem _ hu), fun u hu => hs.2 u ?_⟩
  cases ts with
  | nil => cases hu
  | cons v vs => exact List.dropLast_cons₂ ▸ List.mem_cons_of_mem _ hu

/-- A hit of the scan starts a new, empty part, -/
theorem ScanSplit.hit (hw : w ≠ []) {u : List Char} {us : List (List Char)}
    (hs : ScanSplit w (u :: us)) : ScanSplit w ([] :: u :: us) := by
  have hshort : ¬ w <:+: w.dropLast := fun hi => by
    have h1 := hi.length_le
    have h2 := List.length_pos.mpr hw
    rw [List.length_dropLast] at h1
    omega
  refine ⟨?_, ?_⟩
  · rintro v (_ | ⟨_, hv⟩)
    exacts [by simpa using hw, hs.1 v hv]
  · rw [List.dropLast_cons₂]
    rintro v (_ | ⟨_, hv⟩)
    exacts [hshort, hs.2 v hv]

/-- and a miss adds its character to the first part. -/
theorem ScanSplit.miss {c : Char} {u : List Char} {us : List (List Char)}
    (hs : ScanSplit w (u :: us)) (h : ¬ w <+: c :: w.intercalate (u :: us)) :
    ScanSplit w ((c :: u) :: us) := by
  have step : ∀ {v}, v <+: w.intercalate (u :: us) → ¬ w <:+: v → ¬ w <:+: c :: v :=
    fun hv hfree hi => (List.infix_cons_iff.mp hi).elim
      (fun hp => h (hp.trans (List.cons_prefix_cons.mpr ⟨rfl, hv⟩))) hfree
  refine ⟨?_, ?_⟩
  · rintro v (_ | ⟨_, hv⟩)
    exacts [step (prefix_intercalate w u us) (hs.1 u (List.mem_cons_self _ _)),
      hs.1 v (List.mem_cons_of_mem _ hv)]
  · cases us with
    | nil => simp
    | cons u' us =>
        rw [List.dropLast_cons₂]
        rintro v (_ | ⟨_, hv⟩)
        · refine step ?_ (hs.2 u (by simp))
          rw [intercalate_cons_cons, List.append_assoc]
          exact (List.prefix_append_right_inj u).mpr
            ((List.dropLast_prefix w).trans (List.prefix_append _ _))
        · exact hs.2 v (List.dropLast_cons₂ ▸ List.mem_cons_of_mem _ hv)

/-- The characterisation of `replaceAll`: `s` is texts joined by `w`, split where the scan
finds `w`, and the result is the same texts joined by `r`. -/
theorem replaceAll_eq_intercalate (hw : w ≠ []) (s : List Char) :
    ∃ t ts, s = w.intercalate (t :: ts) ∧ ScanSplit w (t :: ts) ∧
      replaceAll w r s = r.intercalate (t :: ts) := by
  induction s using scan_induct w hw with
  | nil => exact ⟨[], [], rfl, ⟨by simpa using hw, by simp⟩, rfl⟩
  | hit t ih =>
      obtain ⟨u, us, rfl, hs, heq⟩ := ih
      exact ⟨[], u :: us, by simp [intercalate_cons_cons], hs.hit hw,
        by rw [replaceAll_hit hw, heq, intercalate_cons_cons, List.nil_append]⟩
  | miss c s h ih =>
      obtain ⟨u, us, rfl, hs, heq⟩ := ih
      exact ⟨c :: u, us, (cons_intercalate _ _ _ _).symm, hs.miss h,
        by rw [replaceAll_miss h, heq, cons_intercalate]⟩

/-- Where two texts each go on with `w`, an occurrence of `w` starts inside the longer one and
runs into its `w`. -/
theorem infix_dropLast_of_lt {a b x y : List Char} (h : a ++ w ++ x = b ++ w ++ y)
    (hlt : a.length < b.length) : w <:+: b ++ w.dropLast := by
  simp only [List.append_assoc] at h
  obtain ⟨d, rfl, hd⟩ | ⟨d, rfl, -⟩ := List.append_eq_append_iff.mp h
  · have hd0 : 0 < d.length := by simpa using hlt
    have hp : w <+: d ++ w.dropLast :=
      List.prefix_of_prefix_length_le ⟨x, hd⟩
        (List.prefix_append_right_inj d |>.mpr ((List.dropLast_prefix w).trans
          (List.prefix_append _ _)))
        (by simp only [List.length_append, List.length_dropLast]; omega)
    obtain ⟨z, hz⟩ := hp
    exact ⟨a, z, by rw [List.append_assoc, hz, List.append_assoc]⟩
  · simp only [List.length_append] at hlt
    omega

/-- The split is unique: the scan decides where each occurrence of `w` is, also where
occurrences overlap. -/
theorem scanSplit_unique :
    ∀ {t t' : List Char} {ts ts' : List (List Char)},
      w.intercalate (t :: ts) = w.intercalate (t' :: ts') →
      ScanSplit w (t :: ts) → ScanSplit w (t' :: ts') → t :: ts = t' :: ts'
  | t, t', [], [], h, _, _ => by simpa [List.intercalate] using h
  | t, t', [], v :: vs, h, hs, _ => by
      rw [intercalate_singleton, intercalate_cons_cons] at h
      exact absurd ⟨t', _, h.symm⟩ (hs.1 t (List.mem_cons_self _ _))
  | t, t', u :: us, [], h, _, hs' => by
      rw [intercalate_singleton, intercalate_cons_cons] at h
      exact absurd ⟨t, _, h⟩ (hs'.1 t' (List.mem_cons_self _ _))
  | t, t', u :: us, v :: vs, h, hs, hs' => by
      rw [intercalate_cons_cons, intercalate_cons_cons] at h
      have htt : t = t' := by
        rcases Nat.lt_trichotomy t.length t'.length with hlt | heq | hlt
        · exact absurd (infix_dropLast_of_lt h hlt) (hs'.2 t' (by simp))
        · exact List.append_inj_left (by simpa only [List.append_assoc] using h) heq
        · exact absurd (infix_dropLast_of_lt h.symm hlt) (hs.2 t (by simp))
      subst htt
      rw [scanSplit_unique (by simpa only [List.append_assoc, List.append_cancel_left_eq] using h)
        hs.tail hs'.tail]

/-- Where `w` occurs, its replacement is in the result. -/
theorem infix_replaceAll (hw : w ≠ []) {s : List Char} (h : w <:+: s) :
    r <:+: replaceAll w r s := by
  induction s using scan_induct w hw with
  | nil => exact absurd (List.infix_nil.mp h) hw
  | hit t _ =>
      rw [replaceAll_hit hw]
      exact (List.prefix_append _ _).isInfix
  | miss c s hc ih =>
      rw [replaceAll_miss hc]
      rcases List.infix_cons_iff.mp h with hp | hi
      · exact absurd hp hc
      · exact (ih hi).trans (List.suffix_cons _ _).isInfix

/-- A replacement no shorter than `w` leaves the text no shorter, -/
theorem length_le_replaceAll (hw : w ≠ []) (hlen : w.length ≤ r.length) (s : List Char) :
    s.length ≤ (replaceAll w r s).length := by
  induction s using scan_induct w hw with
  | nil => exact le_rfl
  | hit t ih =>
      rw [replaceAll_hit hw, List.length_append, List.length_append]
      omega
  | miss c s hc ih => simpa [replaceAll_miss hc] using ih

/-- and a longer one makes it longer wherever `w` occurs. -/
theorem length_lt_replaceAll (hw : w ≠ []) (hlen : w.length < r.length) {s : List Char}
    (h : w <:+: s) : s.length < (replaceAll w r s).length := by
  induction s using scan_induct w hw with
  | nil => exact absurd (List.infix_nil.mp h) hw
  | hit t _ =>
      have := length_le_replaceAll hw hlen.le t
      rw [replaceAll_hit hw, List.length_append, List.length_append]
      omega
  | miss c s hc ih =>
      rcases List.infix_cons_iff.mp h with hp | hi
      · exact absurd hp hc
      · simpa [replaceAll_miss hc] using ih hi

/-- When `w` and `r` start with the same text `Q`, the result starts as `s` does for the
length of `Q`. -/
theorem take_replaceAll (hw : w ≠ []) {Q : List Char} (hQw : Q <+: w) (hQr : Q <+: r)
    (s : List Char) : (replaceAll w r s).take Q.length = s.take Q.length := by
  induction s using scan_induct w hw with
  | nil => rfl
  | hit t _ =>
      calc (replaceAll w r (w ++ t)).take Q.length
          = r.take Q.length := by
            rw [replaceAll_hit hw, List.take_append_of_le_length hQr.length_le]
        _ = Q := (List.prefix_iff_eq_take.mp hQr).symm
        _ = w.take Q.length := List.prefix_iff_eq_take.mp hQw
        _ = (w ++ t).take Q.length := (List.take_append_of_le_length hQw.length_le).symm
  | miss c s hc ih =>
      rw [replaceAll_miss hc]
      cases hq : Q.length with
      | zero => rfl
      | succ n =>
          rw [hq] at ih
          have := congrArg (List.take n) ih
          simp only [List.take_take, Nat.min_eq_left (Nat.le_succ n)] at this
          simp only [List.take_succ_cons, this]

/-- No occurrence of `w` is left when `w` is a text `Q` and one character, `r` starts with
`Q`, and `r` creates no occurrence in front of a text that has none. -/
theorem not_infix_replaceAll {Q : List Char} (hQw : Q <+: w) (hQr : Q <+: r)
    (hlen : w.length = Q.length + 1) (hr : ∀ t, ¬ w <:+: t → ¬ w <:+: r ++ t)
    (s : List Char) : ¬ w <:+: replaceAll w r s := by
  have hw : w ≠ [] := List.ne_nil_of_length_pos (by omega)
  induction s using scan_induct w hw with
  | nil => simpa using hw
  | hit t ih => rw [replaceAll_hit hw]; exact hr _ ih
  | miss c s hc ih =>
      rw [replaceAll_miss hc]
      intro hi
      rcases List.infix_cons_iff.mp hi with hp | hi
      · have htake : (c :: replaceAll w r s).take w.length = (c :: s).take w.length := by
          rw [hlen, List.take_succ_cons, List.take_succ_cons, take_replaceAll hw hQw hQr]
        exact hc (List.prefix_iff_eq_take.mpr ((List.prefix_iff_eq_take.mp hp).trans htake))
      · exact ih hi

/-- A text with no character that starts `w` is copied. -/
theorem replaceAll_append_of_head (hw : w ≠ []) {u : List Char} (hu : ∀ c ∈ u, c ∉ w.head?)
    (t : List Char) : replaceAll w r (u ++ t) = u ++ replaceAll w r t := by
  induction u with
  | nil => rfl
  | cons c u ih =>
      have hc : ¬ w <+: c :: (u ++ t) := by
        obtain ⟨d, w', rfl⟩ := List.exists_cons_of_ne_nil hw
        rintro hp
        obtain ⟨rfl, -⟩ := List.cons_prefix_cons.mp hp
        exact hu d (List.mem_cons_self _ _) rfl
      rw [List.cons_append, replaceAll_miss hc,
        ih fun d hd => hu d (List.mem_cons_of_mem _ hd), List.cons_append]

/-- The scan restarts at a text that starts with no proper tail of `w`: no occurrence of
`w` straddles the boundary. -/
theorem replaceAll_append (hw : w ≠ []) {t : List Char}
    (ht : ∀ k, 0 < k → k < w.length → ¬ w.drop k <+: t) (s : List Char) :
    replaceAll w r (s ++ t) = replaceAll w r s ++ replaceAll w r t := by
  induction s using scan_induct w hw with
  | nil => rfl
  | hit u ih => rw [List.append_assoc, replaceAll_hit hw, replaceAll_hit hw, ih,
      List.append_assoc]
  | miss c s hc ih =>
      have hc' : ¬ w <+: c :: (s ++ t) := by
        intro hp
        rcases List.prefix_or_prefix_of_prefix hp (List.prefix_append (c :: s) t) with h | h
        · exact hc h
        · obtain ⟨v, rfl⟩ := h
          have hv : v <+: t := (List.prefix_append_right_inj (c :: s)).mp hp
          cases v with
          | nil => exact hc (by simp)
          | cons e v =>
              refine ht (c :: s).length (Nat.succ_pos _) (by simp) ?_
              rwa [List.drop_left]
      rw [List.cons_append, replaceAll_miss hc', ih,
        replaceAll_miss hc, List.cons_append]

/-- When `w` and `r` start with the character `q`, the result agrees with `s` up to the
first `q`. -/
theorem takeWhile_replaceAll (q : Char) (w' r' s : List Char) :
    (replaceAll (q :: w') (q :: r') s).takeWhile (· != q) = s.takeWhile (· != q) := by
  induction s using scan_induct (q :: w') (List.cons_ne_nil _ _) with
  | nil => rfl
  | hit t _ =>
      rw [replaceAll_hit (List.cons_ne_nil _ _)]
      simp
  | miss c s hc ih => rw [replaceAll_miss hc, List.takeWhile_cons,
      List.takeWhile_cons, ih]

theorem prefix_takeWhile_of_not_mem {q : Char} {y l : List Char} (hy : q ∉ y) (h : y <+: l) :
    y <+: l.takeWhile (· != q) := by
  induction y generalizing l with
  | nil => exact List.nil_prefix
  | cons d y ih =>
      obtain ⟨t, rfl⟩ := h
      have hd : d ≠ q := fun e => hy (e ▸ List.mem_cons_self _ _)
      simp only [List.cons_append, List.takeWhile_cons, bne_iff_ne, ne_eq, hd, not_false_eq_true,
        if_true, List.cons_prefix_cons, true_and]
      exact ih (fun e => hy (List.mem_cons_of_mem _ e)) (List.prefix_append y t)

/-- A text with no `q`, where `w` starts with `q` and `r` starts and ends with `q`, and that
`r` does not contain, occurs in the result only where it occurred in `s`. -/
theorem infix_of_infix_replaceAll {q : Char} {w' r' y s : List Char} (hy : q ∉ y)
    (hyr : ¬ y <:+: q :: r' ++ [q]) (h : y <:+: replaceAll (q :: w') (q :: r' ++ [q]) s) :
    y <:+: s := by
  induction s using scan_induct (q :: w') (List.cons_ne_nil _ _) with
  | nil => exact h
  | hit t ih =>
      rw [replaceAll_hit (List.cons_ne_nil _ _), List.append_assoc,
        List.singleton_append] at h
      rcases infix_of_append_sep hy h with h | h
      · exact absurd (h.trans (List.prefix_append _ _).isInfix) hyr
      · exact (ih h).trans (List.suffix_append _ t).isInfix
  | miss c s hc ih =>
      have hcopy := replaceAll_miss (r := q :: r' ++ [q]) hc
      rw [hcopy] at h
      rcases List.infix_cons_iff.mp h with hp | hi
      · have hq := takeWhile_replaceAll q w' (r' ++ [q]) (c :: s)
        rw [List.cons_append] at hcopy
        rw [hcopy] at hq
        exact ((hq ▸ prefix_takeWhile_of_not_mem hy hp).trans (List.takeWhile_prefix _)).isInfix
      · exact (ih hi).trans (List.suffix_cons _ _).isInfix

end Literal

section Patterns

/-- Whether the atom is `.` under the `s` flag, which accepts every character. -/
def Atom.isAny : Atom → Bool
  | .any => true
  | _ => false

theorem Atom.accepts_of_isAny {a : Atom} (h : a.isAny = true) (c : Char) : a.accepts c = true := by
  cases a <;> simp_all [Atom.isAny, Atom.accepts]

/-- The literal text every match of the pattern starts with. -/
def leadingLit : List Piece → List Char
  | .one (.char c) :: ps => c :: leadingLit ps
  | _ => []

/-- The pattern is empty, or its leading literal and each proper tail of `w` differ before
one of them ends: no match starts with a proper tail of `w`. -/
def leadsOutside (w : List Char) : List Piece → Bool
  | [] => true
  | ps => (List.range w.length).all fun k =>
      k == 0 || !decide (leadingLit ps <+: w.drop k) && !decide (w.drop k <+: leadingLit ps)

theorem matches_startsWith_leadingLit {ps : List Piece} {t : List Char} (ht : Matches ps t) :
    leadingLit ps <+: t := by
  induction ps generalizing t with
  | nil => exact List.nil_prefix
  | cons p ps ih =>
      rcases p with (_ | _ | _ | _) | _
      · obtain ⟨d, t, rfl, hd, ht⟩ := ht
        obtain rfl : d = _ := by simpa [Atom.accepts] using hd
        exact List.cons_prefix_cons.mpr ⟨rfl, ih ht⟩
      all_goals exact List.nil_prefix

/-- A pattern whose matches `replaceAll w r` turns into matches: each single-character atom
rejects the first character of `w`, and each starred atom rejects it too, or is `.` followed
by a piece that starts outside `w`. -/
def KeepsMatches (w : List Char) : List Piece → Bool
  | [] => true
  | .one a :: ps => w.head?.all (fun c => !a.accepts c) && KeepsMatches w ps
  | .many a :: ps =>
      (w.head?.all (fun c => !a.accepts c) || a.isAny && leadsOutside w ps) && KeepsMatches w ps

theorem no_tail_of_leadsOutside {w : List Char} {ps : List Piece} {t : List Char}
    (hl : leadsOutside w ps = true) (ht : Matches ps t) :
    ∀ k, 0 < k → k < w.length → ¬ w.drop k <+: t := by
  intro k hk hkw hp
  cases ps with
  | nil =>
      rw [show t = [] from ht, List.prefix_nil, List.drop_eq_nil_iff] at hp
      omega
  | cons p ps =>
      have := List.all_eq_true.mp hl k (List.mem_range.mpr hkw)
      simp only [Bool.or_eq_true, beq_iff_eq, Bool.and_eq_true, Bool.not_eq_true',
        decide_eq_false_iff_not] at this
      rcases this with rfl | ⟨h1, h2⟩
      · exact absurd hk (Nat.lt_irrefl 0)
      · rcases List.prefix_or_prefix_of_prefix hp (matches_startsWith_leadingLit ht) with h | h
        · exact h2 h
        · exact h1 h

theorem not_head_of_reject {w : List Char} {a : Atom} {c : Char}
    (hr : w.head?.all (fun c => !a.accepts c) = true) (hc : a.accepts c = true) :
    c ∉ w.head? := by
  intro hm
  rw [Option.mem_def] at hm
  simp [hm, hc] at hr

variable {w r : List Char}

/-- `replaceAll` turns a match of a pattern that keeps matches into a match. -/
theorem matches_replaceAll (hw : w ≠ []) {ps : List Piece} (hk : KeepsMatches w ps = true)
    {s : List Char} (hs : Matches ps s) : Matches ps (replaceAll w r s) := by
  induction ps generalizing s with
  | nil =>
      rw [show s = [] from hs]
      rfl
  | cons p ps ih =>
      cases p with
      | one a =>
          simp only [KeepsMatches, Bool.and_eq_true] at hk
          obtain ⟨c, t, rfl, hc, ht⟩ := hs
          have hcopy := replaceAll_append_of_head (r := r) hw (u := [c])
            (by simpa using not_head_of_reject hk.1 hc) t
          exact ⟨c, _, hcopy, hc, ih hk.2 ht⟩
      | many a =>
          simp only [KeepsMatches, Bool.and_eq_true, Bool.or_eq_true] at hk
          obtain ⟨u, t, rfl, hu, ht⟩ := hs
          rcases hk.1 with hrej | ⟨hany, hlead⟩
          · exact ⟨u, _, replaceAll_append_of_head hw (fun c hc => not_head_of_reject hrej
              (hu c hc)) t, hu, ih hk.2 ht⟩
          · exact ⟨_, _, replaceAll_append hw (no_tail_of_leadsOutside hlead ht) u,
              fun c _ => Atom.accepts_of_isAny hany c, ih hk.2 ht⟩

/-- `regex.test` is kept by `replaceAll` when the pattern, between two `.*`, keeps
matches. -/
theorem test_replaceAll (hw : w ≠ []) {ps : List Piece}
    (hk : KeepsMatches w ([.many .any] ++ ps ++ [.many .any]) = true) {s : List Char}
    (hs : test ps s = true) : test ps (replaceAll w r s) = true := by
  rw [test_iff_matches] at hs ⊢
  exact matches_replaceAll hw hk hs

end Patterns

section First

/-- The text a match took, given the text from its start and the text after it. -/
def consumed (s t : List Char) : List Char := s.take (s.length - t.length)

theorem consumed_append (m t : List Char) : consumed (m ++ t) t = m := by
  simp [consumed]

/-- `s.replace(/(g₁)(g₂)/, template)`: the leftmost match is replaced by `template` applied
to the texts of the two groups; with no match, `s` is returned. -/
def replaceFirst (g₁ g₂ : List Piece) (template : List Char → List Char → List Char)
    (s : List Char) : List Char :=
  match find g₁ (fun t => run g₂ t fun u => some (t, u)) s with
  | some (x, t, u) => x ++ template (consumed (s.drop x.length) t) (consumed t u) ++ u
  | none => s

variable {g₁ g₂ : List Piece}

/-- Where the two groups match, `replaceFirst` replaces the leftmost match: no match starts
before it. -/
theorem replaceFirst_of_test (template : List Char → List Char → List Char) {s : List Char}
    (h : test (g₁ ++ g₂) s = true) :
    ∃ x m₁ m₂ u, s = x ++ m₁ ++ m₂ ++ u ∧ Matches g₁ m₁ ∧ Matches g₂ m₂ ∧
      (∀ x' y', s = x' ++ y' → x'.length < x.length →
        ¬ ∃ m z, y' = m ++ z ∧ Matches (g₁ ++ g₂) m) ∧
      replaceFirst g₁ g₂ template s = x ++ template m₁ m₂ ++ u := by
  have hk (t : List Char) : (run g₂ t fun u => some (t, u)).isSome ↔
      ∃ m₂ u, t = m₂ ++ u ∧ Matches g₂ m₂ := by
    simp [run_isSome]
  obtain ⟨⟨x, t, u⟩, hf⟩ :
      ∃ r, find g₁ (fun t => run g₂ t fun u => some (t, u)) s = some r := by
    rw [← Option.isSome_iff_exists, find_isSome]
    obtain ⟨x, m, y, rfl, hm⟩ := (test_iff _ _).mp h
    obtain ⟨m₁, m₂, rfl, hm₁, hm₂⟩ := (matches_append _ _ _).mp hm
    exact ⟨x, m₁ ++ m₂ ++ y, by simp, (run_isSome _ _ _).mpr
      ⟨m₁, m₂ ++ y, by simp, hm₁, (hk _).mpr ⟨m₂, y, rfl, hm₂⟩⟩⟩
  obtain ⟨y, rfl, hy, hleft⟩ := find_eq_some hf
  obtain ⟨m₁, t', rfl, hm₁, ht'⟩ := run_eq_some hy
  obtain ⟨m₂, u', rfl, hm₂, he⟩ := run_eq_some ht'
  simp only [Option.some.injEq, Prod.mk.injEq] at he
  obtain ⟨rfl, rfl⟩ := he
  refine ⟨x, m₁, m₂, u', by simp, hm₁, hm₂,
    fun x' y' hs hlt ⟨m, z, hyz, hm⟩ => ?_, ?_⟩
  · obtain ⟨n₁, n₂, rfl, hn₁, hn₂⟩ := (matches_append _ _ _).mp hm
    have := (run_isSome g₁ y' fun t => run g₂ t fun u => some (t, u)).mpr
      ⟨n₁, n₂ ++ z, by rw [hyz, List.append_assoc], hn₁,
        (hk _).mpr ⟨n₂, z, rfl, hn₂⟩⟩
    simp [hleft x' y' hs hlt] at this
  · simp only [replaceFirst, hf, List.drop_left, consumed_append]

end First

end PowerRag.Text
