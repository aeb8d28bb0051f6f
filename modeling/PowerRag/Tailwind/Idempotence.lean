import PowerRag.Tailwind.Patch

/-!
A second run of the patcher finds nothing to do: each fix's guard fails on what the first
run left. No fix leaves `CHECK_TIMEOUT_UNIT_SECOND = 5` behind (the replacement ends in
`60`, and neither the inserted guard nor `"--watch=always"` holds it), the guard fix 2
inserts satisfies its own check, fix 3 keeps every match of that check and makes no match
of `dirPattern`, and fix 3 leaves `"--watch=always"` wherever it acts.
-/

namespace PowerRag.Tailwind

open PowerRag.Text

section Timeout

theorem not_timeoutOld_timeoutNew_append {t : List Char} (ht : ¬ timeoutOld <:+: t) :
    ¬ timeoutOld <:+: timeoutNew ++ t := by
  show ¬ timeoutOld <:+: "CHECK_TIMEOUT_UNIT_SECOND = ".toList ++ '6' :: ([] ++ '0' :: t)
  exact not_infix_append_sep (by decide) (fun h => absurd h.length_le (by decide))
    (not_infix_append_sep (by decide) (by decide) ht)

/-- Fix 1 leaves no `CHECK_TIMEOUT_UNIT_SECOND = 5`: the text is not a prefix of a longer
one, and `60` holds neither `5` nor the start of a new occurrence. -/
theorem not_timeoutOld_fixTimeout (st : Patching) : ¬ timeoutOld <:+: (fixTimeout st).content := by
  rw [fixTimeout_content]
  split_ifs with h
  · exact not_infix_replaceAll
      (show "CHECK_TIMEOUT_UNIT_SECOND = ".toList <+: timeoutOld by decide)
      (by decide) rfl (fun _ => not_timeoutOld_timeoutNew_append) _
  · exact h

/-- The guard fix 2 inserts makes no `CHECK_TIMEOUT_UNIT_SECOND = 5`. -/
theorem not_timeoutOld_insert {a b : List Char} (ha : ¬ timeoutOld <:+: a)
    (hb : ¬ timeoutOld <:+: b) : ¬ timeoutOld <:+: a ++ mkdirGuard ++ b := by
  have hG : mkdirGuard = 'i' :: (mkdirGuard.take 119).tail ++ '\n' :: "    ".toList := by decide
  rw [hG]
  simp only [List.append_assoc, List.cons_append]
  exact not_infix_append_sep (by decide) ha (not_infix_append_sep (by decide)
    (not_infix_of_not_mem (c := 'C') (by decide) (by decide))
    fun h => hb (infix_of_append_of_head (by decide) h))

theorem not_timeoutOld_fixGeneratedDir {st : Patching} (h : ¬ timeoutOld <:+: st.content) :
    ¬ timeoutOld <:+: (fixGeneratedDir st).content := by
  rw [fixGeneratedDir_content]
  split_ifs with hf
  · obtain ⟨x, m₁, m₂, u, hs, -, -, -, heq⟩ := replaceFirst_of_test
      (fun g₁ g₂ => g₁ ++ mkdirGuard ++ g₂)
      (show test (dirGroup1 ++ dirGroup2) _ = true from hf.2)
    rw [heq]
    rw [hs] at h
    have hx : ¬ timeoutOld <:+: x ++ m₁ := fun hi => h (hi.trans ⟨[], m₂ ++ u, by simp⟩)
    have hu : ¬ timeoutOld <:+: m₂ ++ u := fun hi => h (hi.trans ⟨x ++ m₁, [], by simp⟩)
    simpa [List.append_assoc] using not_timeoutOld_insert hx hu
  · exact h

theorem not_timeoutOld_fixWatch {st : Patching} (h : ¬ timeoutOld <:+: st.content) :
    ¬ timeoutOld <:+: (fixWatch st).content := by
  rw [fixWatch_content]
  split_ifs
  · rw [watchOld_eq, watchNew_eq]
    exact fun hi => h (infix_of_infix_replaceAll (by decide)
      (not_infix_of_not_mem (c := 'C') (by decide) (by decide)) hi)
  · exact h

end Timeout

section GeneratedDir

/-- After fix 2, its check matches, or `dirPattern` does not. -/
def DirSettled (s : List Char) : Prop :=
  test generatedDirCheck s = true ∨ test dirPattern s = false

/-- The guard fix 2 inserts after a match of the first group matches `generatedDirCheck`. -/
theorem test_generatedDirCheck_insert {s : List Char} (h : test dirPattern s = true) :
    test generatedDirCheck
      (replaceFirst dirGroup1 dirGroup2 (fun g₁ g₂ => g₁ ++ mkdirGuard ++ g₂) s) =
      true := by
  obtain ⟨x, m₁, m₂, u, -, hm₁, -, -, heq⟩ := replaceFirst_of_test
    (fun g₁ g₂ => g₁ ++ mkdirGuard ++ g₂)
    (show test (dirGroup1 ++ dirGroup2) s = true from h)
  rw [dirGroup1, matches_lit_append] at hm₁
  obtain ⟨ws, rfl, hws⟩ := hm₁
  rw [heq, test_iff]
  refine ⟨x, generatedDirDef ++ ws ++ mkdirGuard.take 44, mkdirGuard.drop 44 ++ m₂ ++ u,
    ?_, ?_⟩
  · conv_lhs => rw [← List.take_append_drop 44 mkdirGuard]
    simp only [List.append_assoc]
  · refine (matches_append _ _ _).mpr ⟨_, _, rfl, (matches_append _ _ _).mpr
      ⟨_, _, rfl, (matches_iff_run _ _).mpr (by decide), hws⟩,
      (matches_iff_run _ _).mpr (by decide)⟩

theorem dirSettled_fixGeneratedDir (st : Patching) : DirSettled (fixGeneratedDir st).content := by
  rw [fixGeneratedDir_content]
  split_ifs with h
  · exact .inl (test_generatedDirCheck_insert h.2)
  · unfold DirSettled
    cases hc : test generatedDirCheck st.content <;> simp_all

/-- Fix 3 makes no match of `dirPattern`: a match holds no `"`, and every `"` fix 3 writes
stands at an end of `"--watch=always"`. -/
theorem test_dirPattern_of_replaceAll {s : List Char}
    (h : test dirPattern (replaceAll watchOld watchNew s) = true) : test dirPattern s = true := by
  obtain ⟨x, m, y, hxy, hm⟩ := (test_iff _ _).mp h
  obtain ⟨ws, rfl, hws⟩ := matches_dirPattern hm
  have hq : '"' ∉ generatedDirDef ++ ws ++ binPathDecl := by
    simp only [List.mem_append, not_or]
    exact ⟨⟨by decide, fun hw => absurd (hws _ hw) (by decide)⟩, by decide⟩
  have hin : generatedDirDef ++ ws ++ binPathDecl <:+: s := by
    rw [watchOld_eq, watchNew_eq] at hxy
    exact infix_of_infix_replaceAll hq (not_infix_of_not_mem (c := 'g')
      (List.mem_append_left _ (List.mem_append_left _ (by decide))) (by decide))
      ⟨x, y, hxy.symm⟩
  obtain ⟨x', y', rfl⟩ := hin
  exact (test_iff _ _).mpr ⟨x', _, y', rfl, hm⟩

theorem dirSettled_fixWatch {st : Patching} (h : DirSettled st.content) :
    DirSettled (fixWatch st).content := by
  rw [fixWatch_content]
  split_ifs
  · rcases h with h | h
    · exact .inl (test_replaceAll (by decide) (by decide) h)
    · exact .inr (Bool.eq_false_iff.mpr fun h' => by simp [test_dirPattern_of_replaceAll h'] at h)
  · exact h

end GeneratedDir

/-- After fix 3, `"--watch"` is gone or `"--watch=always"` is there. -/
theorem watch_settled_fixWatch (st : Patching) :
    ¬ (watchOld <:+: (fixWatch st).content ∧ ¬ watchNew <:+: (fixWatch st).content) := by
  rw [fixWatch_content]
  split_ifs with h
  · exact fun ⟨_, hn⟩ => hn (infix_replaceAll (by decide) h.1)
  · exact h

/-- Running the patcher on what it left in the file changes nothing: every guard fails, so
`modified` stays false and the file is not written again. -/
theorem fixTailwindcssPlugin_idempotent (c : List Char) :
    (fixTailwindcssPlugin (some ((fixTailwindcssPlugin (some c)).written.getD c))).written =
      none := by
  rw [written_getD, written_eq_none]
  generalize hp : (applyFixes ⟨c, false, []⟩).content = p
  have h1 : ¬ timeoutOld <:+: p := hp ▸ not_timeoutOld_fixWatch
    (not_timeoutOld_fixGeneratedDir (not_timeoutOld_fixTimeout _))
  have h2 : DirSettled p := hp ▸ dirSettled_fixWatch (dirSettled_fixGeneratedDir _)
  have h3 := hp ▸ watch_settled_fixWatch (fixGeneratedDir (fixTimeout ⟨c, false, []⟩))
  obtain ⟨e1, m1⟩ := fixTimeout_idle ⟨p, false, []⟩ h1
  obtain ⟨e2, m2⟩ := fixGeneratedDir_idle (fixTimeout ⟨p, false, []⟩) (by rw [e1]; exact h2)
  obtain ⟨-, m3⟩ := fixWatch_idle (fixGeneratedDir (fixTimeout ⟨p, false, []⟩))
    (by rw [e2, e1]; exact h3)
  rw [applyFixes, m3, m2, m1]

end PowerRag.Tailwind
