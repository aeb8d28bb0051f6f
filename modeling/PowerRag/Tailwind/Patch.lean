import PowerRag.Text.Replace

/-!
`web/scripts/fix-tailwindcss-plugin.js`, which npm's `postinstall` runs: it patches the
Tailwind CSS plugin of UmiJS in place. Three fixes, each guarded by a test of the current
content, are applied in order to the text read from the file; the text is written back when
one of them changed it. Each step logs a line.
-/

namespace PowerRag.Tailwind

open PowerRag.Text

def timeoutOld : List Char := "CHECK_TIMEOUT_UNIT_SECOND = 5".toList

def timeoutNew : List Char := "CHECK_TIMEOUT_UNIT_SECOND = 60".toList

/-- `generatedDirCheck` up to its `\s*`. -/
def checkDef : List Piece :=
  lit "const generatedDir = ".toList ++ [.many .any] ++ lit "dirname".toList ++ [.many .any] ++
    lit "generatedPath".toList ++ [.many .any] ++ lit ";".toList

def checkGuard : List Piece :=
  lit "if (!".toList ++ [.many .any] ++ lit "existsSync".toList ++ [.many .any] ++
    lit "generatedDir".toList ++ [.many .any] ++ lit ")".toList

/-- `generatedDirCheck`, a regex with the `s` flag, so that `.` also matches line ends. -/
def generatedDirCheck : List Piece := checkDef ++ [.many .space] ++ checkGuard

def generatedDirDef : List Char :=
  "const generatedDir = (0, import_path.dirname)(generatedPath);".toList

def binPathDecl : List Char := "const binPath".toList

def dirGroup1 : List Piece := lit generatedDirDef ++ [.many .space]

def dirGroup2 : List Piece := lit binPathDecl

def dirPattern : List Piece := dirGroup1 ++ dirGroup2

/-- What fix 2's template puts between `$1` and `$2`. -/
def mkdirGuard : List Char :=
  ("if (!(0, import_fs.existsSync)(generatedDir)) \x7b\n      require(\"fs\").mkdirSync(" ++
    "generatedDir, \x7b recursive: true \x7d);\n    \x7d\n    ").toList

def watchOld : List Char := "\"--watch\"".toList

def watchNew : List Char := "\"--watch=always\"".toList

/-- The locals of `fixTailwindcssPlugin` while it patches, and what it has logged. -/
structure Patching where
  content : List Char
  modified : Bool
  log : List String
  deriving DecidableEq, Repr

namespace Patching

def note (st : Patching) (line : String) : Patching := { st with log := st.log ++ [line] }

def rewrite (st : Patching) (content : List Char) (line : String) : Patching :=
  { content, modified := true, log := st.log ++ [line] }

end Patching

/-- Fix 1: the timeout from 5 to 60 seconds. -/
def fixTimeout (st : Patching) : Patching :=
  if timeoutOld <:+: st.content then
    st.rewrite (replaceAll timeoutOld timeoutNew st.content)
      "✓ Fixed: Increased timeout from 5s to 60s"
  else if timeoutNew <:+: st.content then st.note "✓ Already fixed: Timeout is 60s"
  else st

/-- Fix 2: create the output directory before the binary is run. -/
def fixGeneratedDir (st : Patching) : Patching :=
  if !test generatedDirCheck st.content then
    if test dirPattern st.content then
      st.rewrite (replaceFirst dirGroup1 dirGroup2 (fun g₁ g₂ => g₁ ++ mkdirGuard ++ g₂)
        st.content) "✓ Fixed: Added directory existence check"
    else st
  else st.note "✓ Already fixed: Directory check exists"

/-- Fix 3: watch with `always`. -/
def fixWatch (st : Patching) : Patching :=
  if watchOld <:+: st.content ∧ ¬ watchNew <:+: st.content then
    st.rewrite (replaceAll watchOld watchNew st.content)
      "✓ Fixed: Changed --watch to --watch=always"
  else if watchNew <:+: st.content then st.note "✓ Already fixed: Using --watch=always"
  else st

def applyFixes (st : Patching) : Patching := fixWatch (fixGeneratedDir (fixTimeout st))

/-- The text written to the plugin file, if any, and the log. -/
structure Outcome where
  written : Option (List Char)
  log : List String
  deriving DecidableEq, Repr

def fixTailwindcssPlugin : Option (List Char) → Outcome
  | none => ⟨none, ["⚠️  Tailwind CSS plugin not found, skipping fix."]⟩
  | some content =>
      let st := applyFixes ⟨content, false, []⟩
      if st.modified then
        ⟨some st.content, st.log ++ ["✅ Tailwind CSS plugin fixes applied successfully!"]⟩
      else ⟨none, st.log ++ ["✅ All fixes already applied, no changes needed."]⟩

section Steps

variable (st : Patching)

theorem fixTimeout_content : (fixTimeout st).content =
    if timeoutOld <:+: st.content then replaceAll timeoutOld timeoutNew st.content
    else st.content := by
  unfold fixTimeout
  split_ifs <;> rfl

theorem fixGeneratedDir_content : (fixGeneratedDir st).content =
    if test generatedDirCheck st.content = false ∧ test dirPattern st.content = true then
      replaceFirst dirGroup1 dirGroup2 (fun g₁ g₂ => g₁ ++ mkdirGuard ++ g₂) st.content
    else st.content := by
  unfold fixGeneratedDir
  cases test generatedDirCheck st.content <;> cases test dirPattern st.content <;> rfl

theorem fixWatch_content : (fixWatch st).content =
    if watchOld <:+: st.content ∧ ¬ watchNew <:+: st.content then
      replaceAll watchOld watchNew st.content
    else st.content := by
  unfold fixWatch
  split_ifs <;> rfl

theorem fixTimeout_quiet (h : (fixTimeout st).modified = false) :
    (fixTimeout st).content = st.content ∧ st.modified = false := by
  unfold fixTimeout at *
  split_ifs at * <;> simp_all [Patching.rewrite, Patching.note]

theorem fixGeneratedDir_quiet (h : (fixGeneratedDir st).modified = false) :
    (fixGeneratedDir st).content = st.content ∧ st.modified = false := by
  unfold fixGeneratedDir at *
  split_ifs at * <;> simp_all [Patching.rewrite, Patching.note]

theorem fixWatch_quiet (h : (fixWatch st).modified = false) :
    (fixWatch st).content = st.content ∧ st.modified = false := by
  unfold fixWatch at *
  split_ifs at * <;> simp_all [Patching.rewrite, Patching.note]

theorem fixTimeout_idle (h : ¬ timeoutOld <:+: st.content) :
    (fixTimeout st).content = st.content ∧ (fixTimeout st).modified = st.modified := by
  unfold fixTimeout
  split_ifs <;> simp_all [Patching.note]

theorem fixGeneratedDir_idle
    (h : test generatedDirCheck st.content = true ∨ test dirPattern st.content = false) :
    (fixGeneratedDir st).content = st.content ∧
      (fixGeneratedDir st).modified = st.modified := by
  unfold fixGeneratedDir
  split_ifs <;> simp_all [Patching.note]

theorem fixWatch_idle (h : ¬ (watchOld <:+: st.content ∧ ¬ watchNew <:+: st.content)) :
    (fixWatch st).content = st.content ∧ (fixWatch st).modified = st.modified := by
  unfold fixWatch
  split_ifs <;> simp_all [Patching.note]

end Steps

/-- What a run leaves in the plugin file is what the fixes produced. -/
theorem written_getD (c : List Char) :
    (fixTailwindcssPlugin (some c)).written.getD c = (applyFixes ⟨c, false, []⟩).content := by
  simp only [fixTailwindcssPlugin]
  split
  · rfl
  · rename_i h
    obtain ⟨h3, h2⟩ := fixWatch_quiet _ (by simpa [applyFixes] using h)
    obtain ⟨h2', h1⟩ := fixGeneratedDir_quiet _ h2
    obtain ⟨h1', -⟩ := fixTimeout_quiet _ h1
    simp only [Option.getD_none, applyFixes, h3, h2', h1']

theorem written_eq_none (c : List Char) :
    (fixTailwindcssPlugin (some c)).written = none ↔
      (applyFixes ⟨c, false, []⟩).modified = false := by
  simp only [fixTailwindcssPlugin]
  split <;> simp_all

/-- The fixes' texts and patterns, seen from the characters they hold. -/
theorem watchOld_eq : watchOld = '"' :: "--watch\"".toList := rfl

theorem watchNew_eq : watchNew = '"' :: "--watch=always".toList ++ ['"'] := rfl

/-- A match of `dirPattern` is the definition, blanks, and `const binPath`. -/
theorem matches_dirPattern {m : List Char} (hm : Matches dirPattern m) :
    ∃ ws, m = generatedDirDef ++ ws ++ binPathDecl ∧ ∀ c ∈ ws, isJsSpace c = true := by
  rw [dirPattern, dirGroup1, dirGroup2, List.append_assoc, matches_lit_append] at hm
  obtain ⟨t, rfl, ht⟩ := hm
  obtain ⟨ws, b, rfl, hws, hb⟩ := (matches_append _ _ _).mp ht
  exact ⟨ws, by rw [(matches_lit _ _).mp hb, List.append_assoc], (matches_many _ _).mp hws⟩

end PowerRag.Tailwind
