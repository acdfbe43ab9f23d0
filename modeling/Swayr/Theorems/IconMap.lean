import Swayr.Icons.DesktopFile

/-!
# What the icon map depends on

Every desktop file enters its icon under up to three ids, and later files overwrite
earlier ones; that makes the map an overlay of the files (`getAppIdToIconMap_eq`).
The order of the files in a folder is not specified, so an id can get the icon of
any file that is entered under it in the last folder with such a file: of
`foo.desktop`, of `org.gnome.foo.desktop`, and of a file with the class `foo`.
-/

namespace Swayr.Theorems.IconMap

open Icons Shared Kit

variable {find : Text → Option Text}

/-- What a directory entry sets an app id to. -/
def setsIcon (find : Text → Option Text) (e : DirEntry) (appId : Text) : Option Text :=
  if e.isDesktop then
    (e.lines.bind (recordOf find)).bind fun r => e.desktopFileName.bind fun name =>
      if appId ∈ entryKeys r.1 name then some r.2 else none
  else none

/-- The entry's path has a file name if it is needed. -/
def Named (find : Text → Option Text) (e : DirEntry) : Prop :=
  e.isDesktop = true → (e.lines.bind (recordOf find)).isSome = true →
    e.desktopFileName.isSome = true

def AllNamed (find : Text → Option Text) (folders : List (List DirEntry)) : Prop :=
  ∀ e ∈ folders.flatten, Named find e

/-! ## The map as an overlay -/

/-- Each of the keys gets the icon. -/
theorem foldl_insert (keys : List Text) (icon : Text) (map : IconMap) (k : Text) :
    keys.foldl (fun map appId => map.insert appId icon) map k =
      if k ∈ keys then some icon else map k := by
  induction keys generalizing map with
  | nil => simp
  | cons key keys ih =>
      rw [List.foldl_cons, ih]
      by_cases hk : k = key <;> by_cases hmem : k ∈ keys <;> simp [IconMap.insert, hk, hmem]

/-- One entry. -/
theorem insertEntry_eq {e : DirEntry} (hd : e.isDesktop = true) (hn : Named find e)
    (map : IconMap) : insertEntry find map e = some fun k => (setsIcon find e k).or (map k) := by
  unfold insertEntry setsIcon
  have hname := hn hd
  cases hrec : e.lines.bind (recordOf find) with
  | none => simp
  | some r =>
      obtain ⟨wmClass, icon⟩ := r
      rw [hrec] at hname
      obtain ⟨name, hname⟩ := Option.isSome_iff_exists.mp (hname rfl)
      simp only [hname, Option.map_some, if_pos hd, Option.bind_some, Option.some.injEq]
      funext k
      rw [foldl_insert]
      split <;> rfl

theorem insertEntry_eq_none {e : DirEntry} (hn : ¬ Named find e) (map : IconMap) :
    insertEntry find map e = none := by
  unfold Named at hn
  push Not at hn
  obtain ⟨-, hrec, hname⟩ := hn
  obtain ⟨r, hrec⟩ := Option.isSome_iff_exists.mp hrec
  have hname : e.desktopFileName = none := by simpa using hname
  simp only [insertEntry, hrec, hname, Option.map_none]

/-- All entries, one after the other. -/
theorem foldlM_insertEntry {es : List DirEntry} (hd : ∀ e ∈ es, e.isDesktop = true)
    (hn : ∀ e ∈ es, Named find e) (map : IconMap) :
    es.foldlM (insertEntry find) map = some fun k => (overlay (setsIcon find) es k).or (map k) := by
  induction es generalizing map with
  | nil => rfl
  | cons e es ih =>
      rw [List.foldlM_cons, insertEntry_eq (hd e List.mem_cons_self) (hn e List.mem_cons_self)]
      refine (ih (fun f hf => hd f (List.mem_cons_of_mem e hf))
        (fun f hf => hn f (List.mem_cons_of_mem e hf)) _).trans ?_
      simp only [overlay_cons, Option.or_assoc]

/-- A single desktop file without a name makes the scan panic. -/
theorem named_of_foldlM {es : List DirEntry} {map m : IconMap}
    (h : es.foldlM (insertEntry find) map = some m) : ∀ e ∈ es, Named find e := by
  induction es generalizing map with
  | nil => simp
  | cons e es ih =>
      rw [List.foldlM_cons] at h
      obtain ⟨mid, hmid, hrest⟩ := Option.bind_eq_some_iff.mp h
      rw [List.forall_mem_cons]
      refine ⟨?_, ih hrest⟩
      by_contra hn
      rw [insertEntry_eq_none hn] at hmid
      simp at hmid

variable {isFile : Text → Bool} {iconDirs : List Text} {folders : List (List DirEntry)}

theorem desktopEntries_eq (folders : List (List DirEntry)) :
    desktopEntries folders = folders.flatten.filter DirEntry.isDesktop := by
  rw [desktopEntries, List.filter_flatten, List.flatMap_def]

/-- The map is the overlay of all directory entries, if there is one at all. -/
theorem getAppIdToIconMap_eq_some {m : IconMap} :
    getAppIdToIconMap isFile iconDirs folders = some m ↔
      AllNamed (findIcon isFile iconDirs) folders ∧
        m = overlay (setsIcon (findIcon isFile iconDirs)) folders.flatten := by
  -- Files that are no desktop files set nothing.
  have hfilter : overlay (setsIcon (findIcon isFile iconDirs)) (desktopEntries folders) =
      overlay (setsIcon (findIcon isFile iconDirs)) folders.flatten := by
    funext k
    rw [desktopEntries_eq]
    refine overlay_filter (fun e he => ?_) _
    simp [setsIcon, he]
  have hdesktop : ∀ e ∈ desktopEntries folders, e.isDesktop = true := by
    intro e he
    rw [desktopEntries_eq] at he
    exact (List.mem_filter.mp he).2
  have heq : (∀ e ∈ desktopEntries folders, Named (findIcon isFile iconDirs) e) →
      getAppIdToIconMap isFile iconDirs folders =
        some (overlay (setsIcon (findIcon isFile iconDirs)) folders.flatten) := by
    intro hn
    refine (foldlM_insertEntry hdesktop hn _).trans ?_
    simp only [hfilter, Option.or_none]
  constructor
  · intro h
    have hn := named_of_foldlM h
    refine ⟨?_, Option.some.inj (h.symm.trans (heq hn))⟩
    intro e he hd
    refine hn e ?_ hd
    rw [desktopEntries_eq]
    exact List.mem_filter.mpr ⟨he, hd⟩
  · rintro ⟨hn, rfl⟩
    refine heq fun e he => hn e ?_
    rw [desktopEntries_eq] at he
    exact (List.mem_filter.mp he).1

/-! ## Orders -/

/-- The entry is named after the app id, and has an icon. -/
def IsEntryOf (find : Text → Option Text) (e : DirEntry) (appId : Text) : Prop :=
  e.desktopFileName = some appId ∧ setsIcon find e appId ≠ none

/-- The entries that may decide an app id agree on its icon. -/
def Agree (find : Text → Option Text) (folders : List (List DirEntry)) : Prop :=
  ∀ appId f g, MayDecide (setsIcon find) folders appId f →
    MayDecide (setsIcon find) folders appId g → setsIcon find f appId = setsIcon find g appId

/-- The entries that may decide the app id have icons of entries named after it. -/
def EntriesDecide (find : Text → Option Text) (folders : List (List DirEntry))
    (appId : Text) : Prop :=
  ∀ f, MayDecide (setsIcon find) folders appId f →
    ∃ e ∈ folders.flatten, IsEntryOf find e appId ∧ setsIcon find f appId = setsIcon find e appId

theorem AllNamed.reordered {folders' : List (List DirEntry)} (hn : AllNamed find folders)
    (hre : Reordered folders folders') : AllNamed find folders' :=
  fun e he => hn e (hre.perm_flatten.mem_iff.mpr he)

/-- One map for all orders. -/
theorem same_map_iff :
    (∃ m, ∀ folders', Reordered folders folders' →
        getAppIdToIconMap isFile iconDirs folders' = some m) ↔
      AllNamed (findIcon isFile iconDirs) folders ∧ Agree (findIcon isFile iconDirs) folders := by
  constructor
  · rintro ⟨m, hsame⟩
    obtain ⟨hn, hm⟩ := getAppIdToIconMap_eq_some.mp (hsame folders (Reordered.refl folders))
    refine ⟨hn, overlay_reordered_iff.mp fun folders' hre => ?_⟩
    rw [← (getAppIdToIconMap_eq_some.mp (hsame folders' hre)).2, hm]
  · rintro ⟨hn, hagree⟩
    refine ⟨overlay (setsIcon (findIcon isFile iconDirs)) folders.flatten, ?_⟩
    intro folders' hre
    rw [getAppIdToIconMap_eq_some]
    exact ⟨hn.reordered hre, (overlay_reordered_iff.mpr hagree folders' hre).symm⟩

/-- If an app id gets the icon of an entry named after it in every order, so it does
in the one in which `f` has the last word. -/
theorem entriesDecide_of_maps {appId : Text}
    (h : ∀ folders', Reordered folders folders' →
      ∃ e ∈ folders.flatten, IsEntryOf find e appId ∧
        overlay (setsIcon find) folders'.flatten appId = setsIcon find e appId) :
    EntriesDecide find folders appId := by
  intro f hf
  have hsome : setsIcon find f appId ≠ none := by
    obtain ⟨-, -, -, -, -, hsome, -⟩ := hf
    exact hsome
  obtain ⟨v, hv⟩ := Option.ne_none_iff_exists'.mp hsome
  obtain ⟨folders', hre, hover⟩ := exists_reordered_iff.mpr ⟨f, hf, hv⟩
  obtain ⟨e, he, hentry, hset⟩ := h folders' hre
  exact ⟨e, he, hentry, by rw [hv, ← hover, hset]⟩

/-- In any order, the icon comes from an entry of the application. -/
theorem EntriesDecide.overlay {appId : Text} (hdecide : EntriesDecide find folders appId)
    (hexists : ∃ e ∈ folders.flatten, IsEntryOf find e appId) {folders' : List (List DirEntry)}
    (hre : Reordered folders folders') :
    ∃ e ∈ folders.flatten, IsEntryOf find e appId ∧
      Kit.overlay (setsIcon find) folders'.flatten appId = setsIcon find e appId := by
  cases hover : Kit.overlay (setsIcon find) folders'.flatten appId with
  | none =>
      obtain ⟨e, he, -, hset⟩ := hexists
      rw [overlay_eq_none_iff] at hover
      exact absurd (hover e (hre.perm_flatten.mem_iff.mp he)) hset
  | some v =>
      obtain ⟨f, hf, hfv⟩ := exists_reordered_iff.mp ⟨folders', hre, hover⟩
      obtain ⟨e, he, hentry, hfe⟩ := hdecide f hf
      exact ⟨e, he, hentry, by rw [← hfe, hfv]⟩

/-- There is one map for all orders exactly if no entry panics and the entries that
may decide an app id agree on its icon; and an app id with a desktop file gets, in
all orders, the icon of one exactly if every entry that may decide it has such an
icon. -/
theorem icon_map_iff (isFile : Text → Bool) (iconDirs : List Text)
    (folders : List (List DirEntry)) :
    ((∃ m, ∀ folders', Reordered folders folders' →
        getAppIdToIconMap isFile iconDirs folders' = some m) ↔
      AllNamed (findIcon isFile iconDirs) folders ∧ Agree (findIcon isFile iconDirs) folders) ∧
    ∀ appId, (∃ e ∈ folders.flatten, IsEntryOf (findIcon isFile iconDirs) e appId) →
      ((∀ folders', Reordered folders folders' →
          ∃ m, getAppIdToIconMap isFile iconDirs folders' = some m ∧
            ∃ e ∈ folders.flatten, IsEntryOf (findIcon isFile iconDirs) e appId ∧
              m appId = setsIcon (findIcon isFile iconDirs) e appId) ↔
        AllNamed (findIcon isFile iconDirs) folders ∧
          EntriesDecide (findIcon isFile iconDirs) folders appId) := by
  refine ⟨same_map_iff, ?_⟩
  intro appId hexists
  constructor
  · -- The folders' own order is one of the orders, so the names are there.
    intro hmaps
    obtain ⟨m, hm, -⟩ := hmaps folders (Reordered.refl folders)
    refine ⟨(getAppIdToIconMap_eq_some.mp hm).1, entriesDecide_of_maps ?_⟩
    intro folders' hre
    obtain ⟨m', hm', hentry⟩ := hmaps folders' hre
    rwa [(getAppIdToIconMap_eq_some.mp hm').2] at hentry
  · rintro ⟨hn, hdecide⟩ folders' hre
    exact ⟨_, getAppIdToIconMap_eq_some.mpr ⟨hn.reordered hre, rfl⟩,
      hdecide.overlay hexists hre⟩

/-- `foo.desktop` with the icon `a`. -/
def fooEntry : DirEntry :=
  ⟨"/usr/share/applications".toList, "foo.desktop".toList, true, some [some "Icon=a".toList]⟩

/-- `org.foo.desktop`, another application, with the icon `b`. -/
def orgFooEntry : DirEntry :=
  ⟨"/usr/share/applications".toList, "org.foo.desktop".toList, true,
    some [some "Icon=b".toList]⟩

def isIcon (path : Text) : Bool := path == ['a'] || path == ['b']

/-- One desktop file, which decides. -/
theorem icon_map_iff_foo :
    IsEntryOf (findIcon isIcon []) fooEntry "foo".toList ∧
      AllNamed (findIcon isIcon []) [[fooEntry]] ∧
      EntriesDecide (findIcon isIcon []) [[fooEntry]] "foo".toList := by
  have hentry : IsEntryOf (findIcon isIcon []) fooEntry "foo".toList :=
    ⟨by decide +kernel, by decide +kernel⟩
  have hmem : fooEntry ∈ [[fooEntry]].flatten := List.mem_singleton_self _
  refine ⟨hentry, ((icon_map_iff isIcon [] [[fooEntry]]).2 _ ⟨fooEntry, hmem, hentry⟩).mp ?_⟩
  intro folders' hre
  -- a folder with one entry has one order
  obtain ⟨folder', rest', hperm, hrest, rfl⟩ := List.forall₂_cons_left_iff.mp hre
  obtain rfl := List.forall₂_nil_left_iff.mp hrest
  obtain rfl := List.perm_singleton.mp hperm.symm
  exact ⟨_, rfl, fooEntry, hmem, hentry, by decide +kernel⟩

theorem icon_map_depends_on_order :
    Reordered [[orgFooEntry, fooEntry]] [[fooEntry, orgFooEntry]] ∧
      (getAppIdToIconMap isIcon [] [[orgFooEntry, fooEntry]]).map (· "foo".toList) =
        some (some ['a']) ∧
      (getAppIdToIconMap isIcon [] [[fooEntry, orgFooEntry]]).map (· "foo".toList) =
        some (some ['b']) :=
  ⟨.cons (.swap _ _ _) .nil, by decide +kernel, by decide +kernel⟩

end Swayr.Theorems.IconMap
