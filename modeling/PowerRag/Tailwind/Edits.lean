import PowerRag.Tailwind.Patch

/-!
What one run of the patcher does to the text, fix by fix. Fix 1 replaces every occurrence
of `CHECK_TIMEOUT_UNIT_SECOND = 5`, also where more digits follow (`= 50` becomes `= 600`).
Fix 2 inserts the guard after the leftmost definition of `generatedDir` followed by blanks
and `const binPath`, unless the loose check already matches somewhere. Fix 3 replaces the
occurrences of `"--watch"` the scan finds, unless `"--watch=always"` is already present.
Nothing else changes.
-/

namespace PowerRag.Tailwind

open PowerRag.Text

/-- The timeout text is replaced wherever the scan finds it. -/
theorem fixTimeout_joined (st : Patching) :
    ∃ t ts, st.content = timeoutOld.intercalate (t :: ts) ∧ ScanSplit timeoutOld (t :: ts) ∧
      (fixTimeout st).content = timeoutNew.intercalate (t :: ts) := by
  rw [fixTimeout_content]
  split_ifs with h
  · exact replaceAll_eq_intercalate (by decide) _
  · exact ⟨st.content, [], (intercalate_singleton _ _).symm, ⟨by simpa using h, by simp⟩,
      (intercalate_singleton _ _).symm⟩

/-- Fix 2 inserts the guard at the leftmost match of `dirPattern`, if its check fails. -/
theorem fixGeneratedDir_inserts (st : Patching) :
    if test generatedDirCheck st.content = false ∧ test dirPattern st.content = true then
      ∃ x ws y, st.content = x ++ generatedDirDef ++ ws ++ binPathDecl ++ y ∧
        (∀ ch ∈ ws, isJsSpace ch = true) ∧
        (∀ x' y', st.content = x' ++ y' → x'.length < x.length →
          ¬ ∃ m z, y' = m ++ z ∧ Matches dirPattern m) ∧
        (fixGeneratedDir st).content = x ++ generatedDirDef ++ ws ++ mkdirGuard ++ binPathDecl ++ y
    else (fixGeneratedDir st).content = st.content := by
  rw [fixGeneratedDir_content]
  split_ifs with h
  · obtain ⟨x, m₁, m₂, y, hs, hm₁, hm₂, hleft, heq⟩ := replaceFirst_of_test
      (fun g₁ g₂ => g₁ ++ mkdirGuard ++ g₂)
      (show test (dirGroup1 ++ dirGroup2) _ = true from h.2)
    rw [dirGroup1, matches_lit_append] at hm₁
    obtain ⟨ws, rfl, hws⟩ := hm₁
    obtain rfl := (matches_lit _ _).mp hm₂
    refine ⟨x, ws, y, by simp [hs], (matches_many _ _).mp hws, hleft,
      heq.trans (by simp only [List.append_assoc])⟩
  · rfl

/-- Fix 3 replaces `"--watch"` wherever the scan finds it, if `"--watch=always"` is not
there yet. -/
theorem fixWatch_replaces (st : Patching) :
    if watchOld <:+: st.content ∧ ¬ watchNew <:+: st.content then
      ∃ t ts, st.content = watchOld.intercalate (t :: ts) ∧ ScanSplit watchOld (t :: ts) ∧
        (fixWatch st).content = watchNew.intercalate (t :: ts)
    else (fixWatch st).content = st.content := by
  rw [fixWatch_content]
  split_ifs
  · exact replaceAll_eq_intercalate (by decide) _
  · rfl

/-- One run of the patcher, as the three edits it makes: `c₁` after fix 1, `c₂` after fix
2, and the content the run leaves in the file after fix 3. Each split of a text at the
occurrences of a replaced literal is the scan's, which `scanSplit_unique` shows is the only
one. -/
theorem fixTailwindcssPlugin_edits (c : List Char) :
    ∃ c₁ c₂,
      (∃ t ts, c = timeoutOld.intercalate (t :: ts) ∧ ScanSplit timeoutOld (t :: ts) ∧
        c₁ = timeoutNew.intercalate (t :: ts)) ∧
      (if test generatedDirCheck c₁ = false ∧ test dirPattern c₁ = true then
        ∃ x ws y, c₁ = x ++ generatedDirDef ++ ws ++ binPathDecl ++ y ∧
          (∀ ch ∈ ws, isJsSpace ch = true) ∧
          (∀ x' y', c₁ = x' ++ y' → x'.length < x.length →
            ¬ ∃ m z, y' = m ++ z ∧ Matches dirPattern m) ∧
          c₂ = x ++ generatedDirDef ++ ws ++ mkdirGuard ++ binPathDecl ++ y
       else c₂ = c₁) ∧
      (if watchOld <:+: c₂ ∧ ¬ watchNew <:+: c₂ then
        ∃ t ts, c₂ = watchOld.intercalate (t :: ts) ∧ ScanSplit watchOld (t :: ts) ∧
          (fixTailwindcssPlugin (some c)).written.getD c = watchNew.intercalate (t :: ts)
       else (fixTailwindcssPlugin (some c)).written.getD c = c₂) :=
  ⟨_, _, fixTimeout_joined ⟨c, false, []⟩, fixGeneratedDir_inserts _,
    by rw [written_getD]; exact fixWatch_replaces _⟩

set_option maxRecDepth 2000 in
/-- A timeout of `50` becomes `600`; a definition followed by `const binPath` gets no guard
when the loose check matches text after it; and `"--watch"` stays when `"--watch=always"`
is also present. -/
theorem fixTailwindcssPlugin_edits_differ :
    (fixTailwindcssPlugin (some "CHECK_TIMEOUT_UNIT_SECOND = 50;".toList)).written =
      some "CHECK_TIMEOUT_UNIT_SECOND = 600;".toList ∧
    (fixTailwindcssPlugin (some ("const generatedDir = (0, import_path.dirname)(generatedPath);" ++
      "\nconst binPath = 1; if (!x.existsSync(generatedDir)) f();").toList)).written = none ∧
    (fixTailwindcssPlugin (some "\"--watch\", \"--watch=always\"".toList)).written = none :=
  ⟨by decide, by decide, by decide⟩


section Growth

/-- What each fix keeps between the state before and after it: the text is no shorter, and
`modified`, when the fix sets it, comes with a longer text. -/
structure Grows (st st' : Patching) : Prop where
  length_le : st.content.length ≤ st'.content.length
  modified : st'.modified = true → st.modified = true ∨ st.content.length < st'.content.length

namespace Grows

variable {st st' st'' : Patching}

theorem refl (st : Patching) : Grows st st := ⟨le_rfl, .inl⟩

theorem note (st : Patching) (line : String) : Grows st (st.note line) := ⟨le_rfl, .inl⟩

theorem rewrite {c : List Char} (hc : st.content.length < c.length) (line : String) :
    Grows st (st.rewrite c line) :=
  ⟨hc.le, fun _ => .inr hc⟩

theorem trans (a : Grows st st') (b : Grows st' st'') : Grows st st'' :=
  ⟨a.length_le.trans b.length_le, fun hm => (b.modified hm).elim
    (fun hm' => (a.modified hm').imp_right fun hl => hl.trans_le b.length_le)
    fun hl => .inr (a.length_le.trans_lt hl)⟩

end Grows

theorem grows_fixTimeout (st : Patching) : Grows st (fixTimeout st) := by
  unfold fixTimeout
  split_ifs with h
  exacts [.rewrite (length_lt_replaceAll (by decide) (by decide) h) _, .note _ _, .refl _]

/-- The guard fix 2 inserts makes the text longer. -/
theorem length_lt_insertGuard {s : List Char} (h : test dirPattern s = true) :
    s.length <
      (replaceFirst dirGroup1 dirGroup2 (fun g₁ g₂ => g₁ ++ mkdirGuard ++ g₂) s).length := by
  obtain ⟨x, m₁, m₂, u, rfl, -, -, -, heq⟩ := replaceFirst_of_test
    (fun g₁ g₂ => g₁ ++ mkdirGuard ++ g₂) (show test (dirGroup1 ++ dirGroup2) _ = true from h)
  have : 0 < mkdirGuard.length := List.length_pos.mpr (by decide)
  simp only [heq, List.length_append]
  omega

theorem grows_fixGeneratedDir (st : Patching) : Grows st (fixGeneratedDir st) := by
  unfold fixGeneratedDir
  split_ifs with _ h
  exacts [.rewrite (length_lt_insertGuard h) _, .refl _, .note _ _]

theorem grows_fixWatch (st : Patching) : Grows st (fixWatch st) := by
  unfold fixWatch
  split_ifs with h
  exacts [.rewrite (length_lt_replaceAll (by decide) (by decide) h.1) _, .note _ _, .refl _]

/-- The patcher writes the plugin file exactly when the fixes change its text: no fix sets
`modified` without lengthening the text, and none changes the text without setting it. -/
theorem written_eq_none_iff_unchanged (c : List Char) :
    (fixTailwindcssPlugin (some c)).written = none ↔ (applyFixes ⟨c, false, []⟩).content = c := by
  have g : Grows ⟨c, false, []⟩ (applyFixes ⟨c, false, []⟩) :=
    ((grows_fixTimeout _).trans (grows_fixGeneratedDir _)).trans (grows_fixWatch _)
  refine ⟨fun hn => by rw [← written_getD, hn, Option.getD_none], fun hc => ?_⟩
  rw [written_eq_none]
  cases hm : (applyFixes ⟨c, false, []⟩).modified
  · rfl
  · obtain hf | hlt := g.modified hm
    · cases hf
    · exact absurd (congrArg List.length hc) hlt.ne'

end Growth

end PowerRag.Tailwind
