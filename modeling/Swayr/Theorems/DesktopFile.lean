import Swayr.Icons.DesktopFile

/-!
# Which icon and which class a desktop file is recorded with

The line loop overwrites what it has found until it has found both. The icon kept
is therefore the last one before the first `StartupWMClass` line, or the first one
if a class comes before all icons; the same holds of the class, with the roles
exchanged (`scanReadings_eq`). The groups of a file, and actions with icons of
their own, play no part.
-/

namespace Swayr.Theorems.DesktopFile

open Icons Shared

/-! ## Readings -/

def wmClass? : Reading → Option Text
  | .wmClass value => some value
  | .icon _ => none

def icon? : Reading → Option Text
  | .wmClass _ => none
  | .icon path => some path

def classes (rs : List Reading) : List Text := rs.filterMap wmClass?
def icons (rs : List Reading) : List Text := rs.filterMap icon?

/-- The icons before the first class. -/
def iconRun (rs : List Reading) : List Text := icons (rs.takeWhile fun r => (icon? r).isSome)

/-- The classes before the first icon. -/
def classRun (rs : List Reading) : List Text := classes (rs.takeWhile fun r => (wmClass? r).isSome)

def readings (find : Text → Option Text) (lines : List (Option Text)) : List Reading :=
  lines.filterMap (readLine find)

section simps

variable (v p : Text) (rs : List Reading)

@[simp] theorem classes_wmClass : classes (.wmClass v :: rs) = v :: classes rs := rfl
@[simp] theorem classes_icon : classes (.icon p :: rs) = classes rs := rfl
@[simp] theorem icons_wmClass : icons (.wmClass v :: rs) = icons rs := rfl
@[simp] theorem icons_icon : icons (.icon p :: rs) = p :: icons rs := rfl
@[simp] theorem iconRun_wmClass : iconRun (.wmClass v :: rs) = [] := rfl
@[simp] theorem iconRun_icon : iconRun (.icon p :: rs) = p :: iconRun rs := rfl
@[simp] theorem classRun_wmClass : classRun (.wmClass v :: rs) = v :: classRun rs := rfl
@[simp] theorem classRun_icon : classRun (.icon p :: rs) = [] := rfl

end simps

/-! ## The line loop -/

/-- The loop over the lines that say something. -/
def scanReadings (found : Found) : List Reading → Found
  | [] => found
  | r :: rest =>
      if found.wmClass.isSome && found.icon.isSome then found
      else scanReadings (found.note r) rest

theorem scanReadings_both (v p : Text) (rs : List Reading) :
    scanReadings ⟨some v, some p⟩ rs = ⟨some v, some p⟩ := by
  cases rs <;> rfl

/-- A line matters only by what is read off it. -/
theorem scanLines_eq (find : Text → Option Text) (found : Found) (lines : List (Option Text)) :
    scanLines find found lines = scanReadings found (readings find lines) := by
  induction lines generalizing found with
  | nil => rfl
  | cons line rest ih =>
      unfold readings at ih ⊢
      rw [scanLines, List.filterMap_cons]
      cases hline : readLine find line with
      | none =>
          simp only [Option.elim_none, ih]
          -- The loop breaks off once both are set; reading on would change nothing.
          split
          · obtain ⟨c, i⟩ := found
            rename_i hboth
            simp only [Bool.and_eq_true, Option.isSome_iff_exists] at hboth
            obtain ⟨⟨v, rfl⟩, ⟨p, rfl⟩⟩ := hboth
            exact (scanReadings_both v p _).symm
          · rfl
      | some r =>
          simp only [Option.elim_some, ih]
          rfl

/-- With an icon but no class the loop goes on to the first class. -/
theorem scanReadings_icon (p : Text) (rs : List Reading) :
    scanReadings ⟨none, some p⟩ rs = ⟨(classes rs).head?, some ((iconRun rs).getLast?.getD p)⟩ := by
  induction rs generalizing p with
  | nil => rfl
  | cons r rs ih =>
      cases r with
      | wmClass v => exact scanReadings_both v p rs
      | icon q =>
          refine (ih q).trans ?_
          rw [classes_icon, iconRun_icon, List.getLast?_cons]
          rfl

/-- With a class but no icon it goes on to the first icon. -/
theorem scanReadings_wmClass (v : Text) (rs : List Reading) :
    scanReadings ⟨some v, none⟩ rs = ⟨some ((classRun rs).getLast?.getD v), (icons rs).head?⟩ := by
  induction rs generalizing v with
  | nil => rfl
  | cons r rs ih =>
      cases r with
      | icon p => exact scanReadings_both v p rs
      | wmClass w =>
          refine (ih w).trans ?_
          rw [icons_wmClass, classRun_wmClass, List.getLast?_cons]
          rfl

/-- By induction: until the other value is found a later line replaces an earlier one. -/
theorem scanReadings_eq (rs : List Reading) :
    scanReadings ⟨none, none⟩ rs =
      ⟨(classRun rs).getLast?.or (classes rs).head?,
        (iconRun rs).getLast?.or (icons rs).head?⟩ := by
  cases rs with
  | nil => rfl
  | cons r rs =>
      cases r with
      | icon p =>
          refine (scanReadings_icon p rs).trans ?_
          rw [iconRun_icon, List.getLast?_cons]
          rfl
      | wmClass v =>
          refine (scanReadings_wmClass v rs).trans ?_
          rw [classRun_wmClass, List.getLast?_cons]
          rfl

/-- Without an icon there is no record. -/
theorem recordOf_eq (find : Text → Option Text) (lines : List (Option Text)) :
    recordOf find lines =
      ((iconRun (readings find lines)).getLast?.or (icons (readings find lines)).head?).map
        fun icon => ((classRun (readings find lines)).getLast?.or
          (classes (readings find lines)).head?, icon) := by
  simp only [recordOf, scanLines_eq, scanReadings_eq]

/-! ## First icon, first class -/

/-- What comes first in a run comes first altogether. -/
theorem head?_iconRun {rs : List Reading} (h : iconRun rs ≠ []) :
    (iconRun rs).head? = (icons rs).head? := by
  cases rs with
  | nil => rfl
  | cons r rs =>
      cases r with
      | icon p => rfl
      | wmClass v => exact absurd rfl h

theorem head?_classRun {rs : List Reading} (h : classRun rs ≠ []) :
    (classRun rs).head? = (classes rs).head? := by
  cases rs with
  | nil => rfl
  | cons r rs =>
      cases r with
      | icon p => exact absurd rfl h
      | wmClass v => rfl

/-- The last of a run, or else the first of all, is the first of all exactly if the
run ends as it begins. -/
theorem getLast?_or_eq_iff {run all : List Text} (h : run ≠ [] → run.head? = all.head?) :
    run.getLast?.or all.head? = all.head? ↔ run.getLast? = run.head? := by
  cases run with
  | nil => simp
  | cons a run =>
      rw [← h (List.cons_ne_nil _ _), List.getLast?_cons]
      simp

/-- The lines without those that name a class. -/
def withoutClasses (find : Text → Option Text) (lines : List (Option Text)) :
    List (Option Text) :=
  lines.filter fun line => ((readLine find line).bind wmClass?).isNone

/-- What is left are the icons. -/
theorem readings_withoutClasses (find : Text → Option Text) (lines : List (Option Text)) :
    readings find (withoutClasses find lines) = (icons (readings find lines)).map .icon := by
  induction lines with
  | nil => rfl
  | cons line rest ih =>
      unfold readings withoutClasses at ih ⊢
      rw [List.filter_cons, List.filterMap_cons]
      cases hline : readLine find line with
      | none => simp [hline, ih]
      | some r =>
          cases r with
          | wmClass v => simpa [hline, wmClass?] using ih
          | icon p => simpa [hline, wmClass?] using ih

/-- Class lines add no icon. -/
theorem icons_eq_of_withoutClasses {find : Text → Option Text} {lines lines' : List (Option Text)}
    (h : withoutClasses find lines' = withoutClasses find lines) :
    icons (readings find lines') = icons (readings find lines) := by
  have hmap := congrArg (readings find) h
  rw [readings_withoutClasses, readings_withoutClasses] at hmap
  exact List.map_injective_iff.mpr (fun _ _ => Reading.icon.inj) hmap

/-- The icon recorded is one of those found. -/
theorem recordOf_icon (find : Text → Option Text) (lines : List (Option Text)) :
    (recordOf find lines).map Prod.snd =
      (iconRun (readings find lines)).getLast?.or (icons (readings find lines)).head? := by
  rw [recordOf_eq, Option.map_map]
  exact Option.map_id'

theorem iconRun_subset (rs : List Reading) : iconRun rs ⊆ icons rs :=
  (List.Sublist.filterMap _ (List.takeWhile_sublist _)).subset

/-- A class line ends the run of icons. -/
theorem iconRun_append_wmClass (ps : List Text) (v : Text) (rs : List Reading) :
    iconRun (ps.map .icon ++ .wmClass v :: rs) = ps := by
  induction ps with
  | nil => rfl
  | cons p ps ih => rw [List.map_cons, List.cons_append, iconRun_icon, ih]

/-- If all icons found are the same, it is the first of them. -/
theorem recordOf_icon_of_same {find : Text → Option Text} {lines : List (Option Text)}
    (h : ∀ p ∈ icons (readings find lines), ∀ q ∈ icons (readings find lines), p = q) :
    (recordOf find lines).map Prod.snd = (icons (readings find lines)).head? := by
  rw [recordOf_icon]
  cases hlast : (iconRun (readings find lines)).getLast? with
  | none => exact Option.none_or
  | some p =>
      have hp : p ∈ icons (readings find lines) := iconRun_subset _ (List.mem_of_getLast? hlast)
      cases hicons : icons (readings find lines) with
      | nil => rw [hicons] at hp; cases hp
      | cons q qs =>
          rw [Option.some_or, List.head?_cons, h p hp q (hicons ▸ List.mem_cons_self)]

/-! ## Class lines in other places -/

/-- A line that names a class, whatever icons there are. -/
def classLine : Option Text := some "StartupWMClass=A".toList

theorem readLine_classLine (find : Text → Option Text) :
    readLine find classLine = some (.wmClass ['A']) := by
  have hmatch : wmClassOrIcon "StartupWMClass=A".toList = some (.startupWMClass, ['A']) := by
    decide +kernel
  simp only [readLine, classLine, Option.bind_some, hmatch]

/-- Of each icon that is found there is a file that is recorded with it and differs in
class lines only: the one with a class line behind that icon's. -/
theorem exists_recordOf_eq (find : Text → Option Text) {lines : List (Option Text)} {q : Text}
    (hq : q ∈ icons (readings find lines)) :
    ∃ lines', withoutClasses find lines' = withoutClasses find lines ∧
      (recordOf find lines').map Prod.snd = some q := by
  have hreadings := readings_withoutClasses find lines
  have hmem : .icon q ∈ readings find (withoutClasses find lines) := by
    rw [hreadings]
    exact List.mem_map_of_mem hq
  obtain ⟨line, hline, hread⟩ := List.mem_filterMap.mp hmem
  obtain ⟨front, back, hsplit⟩ := List.append_of_mem hline
  refine ⟨front ++ line :: classLine :: back, ?_, ?_⟩
  · -- the other lines name no class
    have hself : withoutClasses find (withoutClasses find lines) = withoutClasses find lines := by
      simp [withoutClasses, List.filter_filter]
    rw [← hself, hsplit]
    simp [withoutClasses, readLine_classLine, wmClass?, List.filter_cons]
  · -- all that is read in front of the class line is icons, the last of them `q`
    have hicons : readings find front ++ .icon q :: readings find back =
        (icons (readings find lines)).map .icon := by
      rw [← hreadings, hsplit]
      simp [readings, hread]
    obtain ⟨ps, _, -, hps, -⟩ := List.map_eq_append_iff.mp hicons.symm
    have hlines : readings find (front ++ line :: classLine :: back) =
        (ps ++ [q]).map .icon ++ .wmClass ['A'] :: readings find back := by
      rw [List.map_append, hps]
      simp [readings, hread, readLine_classLine]
    rw [recordOf_icon, hlines, iconRun_append_wmClass, List.getLast?_concat, Option.some_or]

/-- A file is recorded with its first icon and its first class exactly if it has no
icon that is found, or the icons before the first class end with the first of them
and the classes before the first icon end with the first of them. And the icon is the
same with whatever class lines, in any places, exactly if all icons that are found are
the same. -/
theorem recordOf_first_iff (find : Text → Option Text) (lines : List (Option Text)) :
    (recordOf find lines = (icons (readings find lines)).head?.map
        (fun icon => ((classes (readings find lines)).head?, icon)) ↔
      icons (readings find lines) = [] ∨
        (iconRun (readings find lines)).getLast? = (iconRun (readings find lines)).head? ∧
        (classRun (readings find lines)).getLast? = (classRun (readings find lines)).head?) ∧
    ((∀ lines', withoutClasses find lines' = withoutClasses find lines →
        (recordOf find lines').map Prod.snd = (recordOf find lines).map Prod.snd) ↔
      ∀ p ∈ icons (readings find lines), ∀ q ∈ icons (readings find lines), p = q) := by
  constructor
  · rw [recordOf_eq, ← getLast?_or_eq_iff head?_iconRun, ← getLast?_or_eq_iff head?_classRun]
    generalize readings find lines = rs
    cases hicons : icons rs with
    | nil =>
        have hrun : iconRun rs = [] := List.eq_nil_of_subset_nil (hicons ▸ iconRun_subset rs)
        simp [hrun]
    | cons p ps =>
        cases (iconRun rs).getLast?.or (p :: ps).head? with
        | none => simp
        | some q => simp [and_comm]
  · constructor
    · -- A class line behind any of the icons makes that icon the recorded one.
      intro hsame p hp q hq
      obtain ⟨ls, hls, hrec⟩ := exists_recordOf_eq find hp
      obtain ⟨ls', hls', hrec'⟩ := exists_recordOf_eq find hq
      rw [hsame ls hls] at hrec
      rw [hsame ls' hls'] at hrec'
      exact Option.some.inj (hrec.symm.trans hrec')
    · intro hall lines' hlines'
      have hicons := icons_eq_of_withoutClasses hlines'
      rw [recordOf_icon_of_same hall, recordOf_icon_of_same (hicons ▸ hall), hicons]

/-- Two files, `a` and `b`, in the current directory. -/
def twoIcons : Text → Option Text := findIcon (fun p => p == ['a'] || p == ['b']) []

/-- An icon, and an action with an icon of its own. -/
def actionLines : List (Option Text) :=
  ["[Desktop Entry]".toList, "Icon=a".toList, "[Desktop Action new-window]".toList,
    "Icon=b".toList].map some

/-- The second icon is kept, unless a class is named before it. -/
theorem second_icon_recorded :
    (readings twoIcons actionLines).head? = some (.icon ['a']) ∧
      recordOf twoIcons actionLines = some (none, ['b']) ∧
      recordOf twoIcons (some "StartupWMClass=A".toList :: actionLines) =
        some (some ['A'], ['a']) := by
  decide +kernel

end Swayr.Theorems.DesktopFile
