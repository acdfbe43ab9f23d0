import Swayr.Theorems.IconMap

/-!
# Icons are looked up once

`get_icon` makes the map of icons on its first call and keeps it. All answers, also
those to calls with other icon folders in the configuration or after applications
have been installed or removed, come from what the first call found
(`icons_of_first_call`).
-/

namespace Swayr.Theorems.IconCache

open Icons Shared Kit

/-! ## The calls -/

/-- A map that is there is used for all calls. -/
theorem outputs_filled (map : IconMap) (cs : List IconCall) :
    iconCalls.outputs (.filled map) cs = cs.map fun c => some (map c.appId) := by
  induction cs with
  | nil => rfl
  | cons c cs ih =>
      rw [Transducer.outputs_cons, List.map_cons]
      exact congrArg _ ih

theorem outputs_poisoned (cs : List IconCall) :
    iconCalls.outputs .poisoned cs = cs.map fun _ => none := by
  induction cs with
  | nil => rfl
  | cons c cs ih =>
      rw [Transducer.outputs_cons, List.map_cons]
      exact congrArg _ ih

/-- The first call fills the map, or poisons the lock. -/
theorem outputs_empty (c : IconCall) (cs : List IconCall) :
    iconCalls.outputs .empty (c :: cs) =
      (c :: cs).map fun d => c.scan.map fun map => map d.appId := by
  rw [Transducer.outputs_cons]
  show [(getIcon .empty c).2] ++ iconCalls.outputs (getIcon .empty c).1 cs = _
  cases hscan : c.scan with
  | none => simp [getIcon, hscan, outputs_poisoned]
  | some map => simp [getIcon, hscan, outputs_filled]

/-! ## What is found is a file -/

/-- What is found is a file. -/
theorem isFile_of_findIcon {isFile : Text → Bool} {iconDirs : List Text} {name icon : Text}
    (h : findIcon isFile iconDirs name = some icon) : isFile icon = true := by
  unfold findIcon at h
  split at h
  · next hname =>
      obtain rfl := Option.some.inj h
      exact hname
  · exact List.find?_some h

section scan

variable {find : Text → Option Text} {P : Text → Prop}
  (hfind : ∀ name icon, find name = some icon → P icon)

include hfind

theorem icon_of_scanLines {found : Found} (hfound : ∀ icon, found.icon = some icon → P icon)
    (lines : List (Option Text)) :
    ∀ icon, (scanLines find found lines).icon = some icon → P icon := by
  induction lines generalizing found with
  | nil => exact hfound
  | cons line lines ih =>
      unfold scanLines
      split
      · exact hfound
      · apply ih
        cases hline : readLine find line with
        | none => exact hfound
        | some reading =>
            cases reading with
            | wmClass value => exact hfound
            | icon path =>
                -- the line names an icon that was looked for
                rintro icon hicon
                obtain rfl : path = icon := Option.some.inj hicon
                unfold readLine at hline
                split at hline
                · cases hline
                · next value _ =>
                    obtain ⟨_, hvalue, heq⟩ := Option.map_eq_some_iff.mp hline
                    obtain rfl := Reading.icon.inj heq
                    exact hfind value _ hvalue
                · cases hline

/-- Every icon that is recorded has been found. -/
theorem icon_of_setsIcon {e : DirEntry} {appId icon : Text}
    (h : IconMap.setsIcon find e appId = some icon) : P icon := by
  unfold IconMap.setsIcon at h
  split at h
  · obtain ⟨⟨wmClass, icon'⟩, hrec, hname⟩ := Option.bind_eq_some_iff.mp h
    obtain ⟨name, -, hkeys⟩ := Option.bind_eq_some_iff.mp hname
    split at hkeys
    · obtain rfl := Option.some.inj hkeys
      obtain ⟨lines, -, hlines⟩ := Option.bind_eq_some_iff.mp hrec
      obtain ⟨icon, hicon, heq⟩ := Option.map_eq_some_iff.mp hlines
      obtain ⟨-, rfl⟩ := Prod.mk.inj heq
      exact icon_of_scanLines hfind (fun _ hnone => by cases hnone) lines icon hicon
    · cases hkeys
  · cases h

end scan

/-- The icons in the map were files when it was made. -/
theorem isFile_of_scan {c : IconCall} {map : IconMap} (h : c.scan = some map) {appId icon : Text}
    (hicon : map appId = some icon) : c.isFile icon = true := by
  obtain ⟨-, rfl⟩ := IconMap.getAppIdToIconMap_eq_some.mp h
  obtain ⟨e, -, hsets⟩ := exists_of_overlay hicon
  exact icon_of_setsIcon (P := fun icon => c.isFile icon = true)
    (fun _ _ => isFile_of_findIcon) hsets

/-- **Icons are those of the first call.** Whatever the configuration and the files are
at the later calls: every call answers from the map that the first one made, or panics
as the first one did. Every icon that is ever given was a file at the first call. -/
theorem icons_of_first_call (c : IconCall) (cs : List IconCall) :
    iconCalls.outputs .empty (c :: cs) =
        (c :: cs).map (fun d => c.scan.map fun map => map d.appId) ∧
      ∀ icon, some (some icon) ∈ iconCalls.outputs .empty (c :: cs) → c.isFile icon = true := by
  refine ⟨outputs_empty c cs, fun icon hicon => ?_⟩
  rw [outputs_empty] at hicon
  obtain ⟨d, -, hd⟩ := List.mem_map.mp hicon
  obtain ⟨map, hscan, hmap⟩ := Option.map_eq_some_iff.mp hd
  exact isFile_of_scan hscan hmap

end Swayr.Theorems.IconCache
