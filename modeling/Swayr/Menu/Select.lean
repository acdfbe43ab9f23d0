import Mathlib.Logic.Function.Basic
import Swayr.Menu.Display

/-!
# Choosing from the menu (`util.rs`: `select_from_menu`)

The choices go to the menu program as lines of text, and the line it prints is
looked up again. The program is any function of what it is started with; what it
prints is taken as text. It may also not be there, close its input before all is
written or not be waited for: each of these is a panic.
-/

namespace Swayr.Menu

open Cfg Shared Kit.Text

/-- A menu program: its executable, its arguments and its input lead to what it
prints; `none` if it cannot be spawned, written to or waited for. -/
abbrev Program := (executable : Text) → (args : List Text) → (input : Text) → Option Text

section

variable {α : Type}

/-- The choices by their display strings. -/
abbrev ChoiceMap (α : Type) := Text → Option α

/-- One choice entered into the map. Rofi returns only what comes before the NUL
of an image escape sequence. -/
def ChoiceMap.insertChoice (map : ChoiceMap α) (s : Text) (c : α) : ChoiceMap α :=
  let map := if '\x00' ∈ s then Function.update map (s.takeWhile (· != '\x00')) (some c) else map
  Function.update map s (some c)

/-- The loop over the choices: the map and the lines of the menu. -/
def enterChoices (formatForDisplay : α → Option Text) :
    List α → ChoiceMap α → List Text → Option (ChoiceMap α × List Text)
  | [], map, strs => some (map, strs)
  | c :: choices, map, strs => do
      let s ← formatForDisplay c
      enterChoices formatForDisplay choices (map.insertChoice s c) (strs ++ [s])

/-- The arguments of the menu program, with the prompt in its place. -/
def menuArgs (cfg : Config) (prompt : Text) : List Text :=
  cfg.getMenuArgs.map (replaceText "\x7bprompt\x7d".toList prompt)

/-- `select_from_menu`: the choice, or the line that is none; `none` is a panic, of
`format_for_display` or of an `expect` on the menu program. -/
def selectFromMenu (cfg : Config) (program : Program) (formatForDisplay : α → Option Text)
    (prompt : Text) (choices : List α) : Option (Except Text α) := do
  let (map, strs) ← enterChoices formatForDisplay choices (fun _ => none) []
  let output ← program cfg.getMenuExecutable (menuArgs cfg prompt) (['\n'].intercalate strs)
  let choice := output.dropLast
  return match map choice with
    | some c => .ok c
    | none => .error choice

/-! ## What is found in the map -/

variable {formatForDisplay : α → Option Text} {line : α → Text}

/-- Every choice is entered under its line, later ones over earlier ones. -/
theorem enterChoices_eq {choices : List α}
    (hline : ∀ c ∈ choices, formatForDisplay c = some (line c)) (map : ChoiceMap α)
    (strs : List Text) :
    enterChoices formatForDisplay choices map strs =
      some (choices.foldl (fun map c => map.insertChoice (line c) c) map,
        strs ++ choices.map line) := by
  induction choices generalizing map strs with
  | nil => simp [enterChoices]
  | cons c choices ih =>
      rw [enterChoices, hline c List.mem_cons_self]
      simp only [Option.bind_eq_bind, Option.bind_some]
      rw [ih fun d hd => hline d (List.mem_cons_of_mem c hd)]
      simp

theorem mapM_formatForDisplay {choices : List α}
    (hline : ∀ c ∈ choices, formatForDisplay c = some (line c)) :
    choices.mapM formatForDisplay = some (choices.map line) := by
  induction choices with
  | nil => rfl
  | cons c choices ih =>
      rw [List.mapM_cons, hline c List.mem_cons_self,
        ih fun d hd => hline d (List.mem_cons_of_mem c hd)]
      rfl

/-- Where all choices can be formatted, the texts are their lines. -/
theorem mapM_formatForDisplay_eq_some {choices : List α} {strs : List Text}
    (h : choices.mapM formatForDisplay = some strs) :
    (∀ c ∈ choices, formatForDisplay c = some ((formatForDisplay c).getD [])) ∧
      strs = choices.map fun c => (formatForDisplay c).getD [] := by
  induction choices generalizing strs with
  | nil => simpa using (Option.some.inj h).symm
  | cons c choices ih =>
      rw [List.mapM_cons, Option.bind_eq_bind, Option.bind_eq_some_iff] at h
      obtain ⟨s, hs, h⟩ := h
      obtain ⟨rest, hrest, h⟩ := Option.bind_eq_some_iff.mp h
      obtain rfl : s :: rest = strs := Option.some.inj h
      obtain ⟨hlines, rfl⟩ := ih hrest
      constructor
      · intro d hd
        rcases List.mem_cons.mp hd with rfl | hd
        · rw [hs, Option.getD_some]
        · exact hlines d hd
      · rw [List.map_cons, hs, Option.getD_some]

/-- Without a NUL a choice is entered under its own line only. -/
theorem ChoiceMap.insertChoice_of_nulFree {s : Text} (hs : NulFree s) (map : ChoiceMap α) (c : α) :
    map.insertChoice s c = Function.update map s (some c) := by
  unfold insertChoice
  rw [if_neg hs]

/-- A text that is nobody's line is entered for none of the choices. -/
theorem foldl_insertChoice_of_not_mem {choices : List α} (hnul : ∀ c ∈ choices, NulFree (line c))
    (map : ChoiceMap α) {s : Text} (hs : s ∉ choices.map line) :
    choices.foldl (fun map c => map.insertChoice (line c) c) map s = map s := by
  induction choices generalizing map with
  | nil => rfl
  | cons c choices ih =>
      rw [List.map_cons, List.mem_cons, not_or] at hs
      rw [List.foldl_cons, ih (fun d hd => hnul d (List.mem_cons_of_mem c hd)) _ hs.2,
        ChoiceMap.insertChoice_of_nulFree (hnul c List.mem_cons_self),
        Function.update_of_ne hs.1]

/-- With distinct lines every choice is found under its line. -/
theorem foldl_insertChoice_of_mem {choices : List α} (hnul : ∀ c ∈ choices, NulFree (line c))
    (hdistinct : (choices.map line).Nodup) (map : ChoiceMap α) {d : α} (hd : d ∈ choices) :
    choices.foldl (fun map c => map.insertChoice (line c) c) map (line d) = some d := by
  induction choices generalizing map with
  | nil => simp at hd
  | cons c choices ih =>
      rw [List.map_cons, List.nodup_cons] at hdistinct
      have hnul' : ∀ e ∈ choices, NulFree (line e) := fun e he =>
        hnul e (List.mem_cons_of_mem c he)
      rw [List.foldl_cons]
      rcases List.mem_cons.mp hd with rfl | hd
      · -- no later choice has the same line
        rw [foldl_insertChoice_of_not_mem hnul' _ hdistinct.1,
          ChoiceMap.insertChoice_of_nulFree (hnul d List.mem_cons_self), Function.update_self]
      · exact ih hnul' hdistinct.2 _ hd

/-- What is printed up to its last character is handed back if it is no line. -/
theorem selectFromMenu_of_not_line {cfg : Config} {program : Program} {prompt : Text}
    {choices : List α} (hline : ∀ c ∈ choices, formatForDisplay c = some (line c))
    (hnul : ∀ c ∈ choices, NulFree (line c)) {out : Text} (hout : out.dropLast ∉ choices.map line)
    (hprints : program cfg.getMenuExecutable (menuArgs cfg prompt)
      (['\n'].intercalate (choices.map line)) = some out) :
    selectFromMenu cfg program formatForDisplay prompt choices =
      some (.error out.dropLast) := by
  unfold selectFromMenu
  rw [enterChoices_eq hline]
  simp only [Option.bind_eq_bind, Option.bind_some, List.nil_append, hprints,
    foldl_insertChoice_of_not_mem hnul _ hout]
  rfl

/-- A printed line that is none of a choice is handed back. -/
theorem selectFromMenu_eq_error {cfg : Config} {program : Program} {prompt : Text}
    {choices : List α} (hline : ∀ c ∈ choices, formatForDisplay c = some (line c))
    (hnul : ∀ c ∈ choices, NulFree (line c)) {t : Text} (ht : t ∉ choices.map line)
    (hprints : program cfg.getMenuExecutable (menuArgs cfg prompt)
      (['\n'].intercalate (choices.map line)) = some (t ++ ['\n'])) :
    selectFromMenu cfg program formatForDisplay prompt choices = some (.error t) := by
  have hlast : (t ++ ['\n']).dropLast = t := List.dropLast_concat
  have herr := selectFromMenu_of_not_line hline hnul (hlast.symm ▸ ht) hprints
  rwa [hlast] at herr

/-- With lines for all choices nothing but the menu program can fail. -/
theorem selectFromMenu_eq_none_iff {cfg : Config} {program : Program} {prompt : Text}
    {choices : List α} (hline : ∀ c ∈ choices, formatForDisplay c = some (line c)) :
    selectFromMenu cfg program formatForDisplay prompt choices = none ↔
      program cfg.getMenuExecutable (menuArgs cfg prompt)
        (['\n'].intercalate (choices.map line)) = none := by
  unfold selectFromMenu
  rw [enterChoices_eq hline]
  simp only [Option.bind_eq_bind, Option.bind_some, List.nil_append]
  cases program cfg.getMenuExecutable (menuArgs cfg prompt)
    (['\n'].intercalate (choices.map line)) <;> simp

/-! ## Any line -/

theorem ChoiceMap.insertChoice_self (map : ChoiceMap α) (s : Text) (c : α) :
    map.insertChoice s c s = some c := by
  unfold insertChoice
  exact Function.update_self _ _ _

/-- Entering a choice hides what was there by that choice only. -/
theorem ChoiceMap.insertChoice_apply (map : ChoiceMap α) (s : Text) (c : α) (t : Text) :
    map.insertChoice s c t = some c ∨ map.insertChoice s c t = map t := by
  have hupdate : ∀ (m : ChoiceMap α) (u : Text),
      Function.update m u (some c) t = some c ∨ Function.update m u (some c) t = m t := by
    intro m u
    by_cases hu : t = u
    · subst hu
      exact .inl (Function.update_self _ _ _)
    · exact .inr (Function.update_of_ne hu _ _)
  unfold insertChoice
  rcases hupdate _ s with h | h
  · exact .inl h
  · rw [h]
    split
    · exact hupdate map _
    · exact .inr rfl

/-- Under any line that was entered there is one of the choices, also if lines
are equal or have NULs. -/
theorem exists_foldl_insertChoice {choices all : List α} (hsub : ∀ c ∈ choices, c ∈ all)
    (map : ChoiceMap α) {t : Text}
    (ht : t ∈ choices.map line ∨ ∃ c ∈ all, map t = some c) :
    ∃ c ∈ all, choices.foldl (fun map c => map.insertChoice (line c) c) map t = some c := by
  induction choices generalizing map with
  | nil =>
      rcases ht with ht | ht
      · simp at ht
      · exact ht
  | cons d choices ih =>
      have hd : d ∈ all := hsub d List.mem_cons_self
      rw [List.foldl_cons]
      apply ih fun c hc => hsub c (List.mem_cons_of_mem d hc)
      rcases ht with ht | ⟨c, hc, hmap⟩
      · rcases List.mem_cons.mp ht with rfl | ht
        · exact .inr ⟨d, hd, map.insertChoice_self _ _⟩
        · exact .inl ht
      · rcases map.insertChoice_apply (line d) d t with h | h
        · exact .inr ⟨d, hd, h⟩
        · exact .inr ⟨c, hc, h.trans hmap⟩

/-- A menu program that prints the line of a choice makes a choice. -/
theorem exists_selectFromMenu_ok {cfg : Config} {program : Program} {prompt : Text}
    {choices : List α} (hline : ∀ c ∈ choices, formatForDisplay c = some (line c)) {t : Text}
    (ht : t ∈ choices.map line)
    (hprints : program cfg.getMenuExecutable (menuArgs cfg prompt)
      (['\n'].intercalate (choices.map line)) = some (t ++ ['\n'])) :
    ∃ c ∈ choices, selectFromMenu cfg program formatForDisplay prompt choices = some (.ok c) := by
  obtain ⟨c, hc, hfound⟩ := exists_foldl_insertChoice (fun _ h => h) (fun _ => none) (.inl ht)
  refine ⟨c, hc, ?_⟩
  unfold selectFromMenu
  rw [enterChoices_eq hline]
  simp only [Option.bind_eq_bind, Option.bind_some, List.nil_append, hprints, List.dropLast_concat,
    hfound]
  rfl

/-- Without NULs, what is found under a line is a choice with this line. -/
theorem foldl_insertChoice_line {choices : List α} (hnul : ∀ c ∈ choices, NulFree (line c))
    (map : ChoiceMap α) {t : Text} (ht : t ∈ choices.map line) :
    ∃ c ∈ choices, line c = t ∧
      choices.foldl (fun map c => map.insertChoice (line c) c) map t = some c := by
  induction choices generalizing map with
  | nil => simp at ht
  | cons c choices ih =>
      have hnul' : ∀ e ∈ choices, NulFree (line e) := fun e he =>
        hnul e (List.mem_cons_of_mem c he)
      rw [List.foldl_cons]
      by_cases hlater : t ∈ choices.map line
      · obtain ⟨e, he, hline, hfound⟩ := ih hnul' (map.insertChoice (line c) c) hlater
        exact ⟨e, List.mem_cons_of_mem c he, hline, hfound⟩
      · obtain rfl : t = line c := (List.mem_cons.mp ht).resolve_right hlater
        refine ⟨c, List.mem_cons_self, rfl, ?_⟩
        rw [foldl_insertChoice_of_not_mem hnul' _ hlater, ChoiceMap.insertChoice_self]

/-- Nothing is in the map but the choices. -/
theorem mem_of_enterChoices {choices : List α} {map map' : ChoiceMap α} {strs strs' : List Text}
    (h : enterChoices formatForDisplay choices map strs = some (map', strs')) {t : Text} {d : α}
    (hd : map' t = some d) : d ∈ choices ∨ map t = some d := by
  induction choices generalizing map strs with
  | nil =>
      obtain ⟨rfl, -⟩ := Prod.mk.inj (Option.some.inj h)
      exact .inr hd
  | cons c choices ih =>
      obtain ⟨s, -, hrest⟩ := Option.bind_eq_some_iff.mp h
      rcases ih hrest with hmem | hmap
      · exact .inl (List.mem_cons_of_mem c hmem)
      · rcases map.insertChoice_apply s c t with heq | heq
        · exact .inl (Option.some.inj (heq.symm.trans hmap) ▸ List.mem_cons_self)
        · exact .inr (heq.symm.trans hmap)

/-- What is chosen was offered. -/
theorem mem_of_selectFromMenu_ok {cfg : Config} {program : Program} {prompt : Text}
    {choices : List α} {d : α}
    (h : selectFromMenu cfg program formatForDisplay prompt choices = some (.ok d)) :
    d ∈ choices := by
  obtain ⟨⟨map, strs⟩, henter, h⟩ := Option.bind_eq_some_iff.mp h
  obtain ⟨output, -, hanswer⟩ := Option.bind_eq_some_iff.mp h
  have hfound := Option.some.inj hanswer
  split at hfound
  · rename_i c hc
    obtain rfl := Except.ok.inj hfound
    exact (mem_of_enterChoices henter hc).resolve_right (by simp)
  · cases hfound

/-- A printed line leads to a choice with this line. -/
theorem exists_selectFromMenu_line {cfg : Config} {program : Program} {prompt : Text}
    {choices : List α} (hline : ∀ c ∈ choices, formatForDisplay c = some (line c))
    (hnul : ∀ c ∈ choices, NulFree (line c)) {t : Text} (ht : t ∈ choices.map line)
    (hprints : program cfg.getMenuExecutable (menuArgs cfg prompt)
      (['\n'].intercalate (choices.map line)) = some (t ++ ['\n'])) :
    ∃ c ∈ choices, line c = t ∧
      selectFromMenu cfg program formatForDisplay prompt choices = some (.ok c) := by
  obtain ⟨c, hc, heq, hfound⟩ := foldl_insertChoice_line hnul (fun _ => none) ht
  refine ⟨c, hc, heq, ?_⟩
  unfold selectFromMenu
  rw [enterChoices_eq hline]
  simp only [Option.bind_eq_bind, Option.bind_some, List.nil_append, hprints, List.dropLast_concat,
    hfound]
  rfl

/-- A printed line leads back to its choice. -/
theorem selectFromMenu_eq_ok {cfg : Config} {program : Program} {prompt : Text} {choices : List α}
    (hline : ∀ c ∈ choices, formatForDisplay c = some (line c))
    (hnul : ∀ c ∈ choices, NulFree (line c)) (hdistinct : (choices.map line).Nodup) {d : α}
    (hd : d ∈ choices)
    (hprints : program cfg.getMenuExecutable (menuArgs cfg prompt)
      (['\n'].intercalate (choices.map line)) = some (line d ++ ['\n'])) :
    selectFromMenu cfg program formatForDisplay prompt choices = some (.ok d) := by
  unfold selectFromMenu
  rw [enterChoices_eq hline]
  simp only [Option.bind_eq_bind, Option.bind_some, List.nil_append, hprints, List.dropLast_concat,
    foldl_insertChoice_of_mem hnul hdistinct _ hd]
  rfl

end

end Swayr.Menu
