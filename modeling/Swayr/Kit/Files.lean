import Mathlib.Data.List.Infix
import Mathlib.Logic.Function.Basic

/-!
# Trees of files

What stands at each path, and the calls that look at it and change it: a directory
is made with all those above it, a file is created in a directory that exists, and
what is written to an opened file goes over its beginning and leaves the rest.
-/

namespace Kit

/-- What stands at a path. -/
inductive Entry (β : Type*)
  | dir
  | file (content : List β)
deriving DecidableEq

/-- The path of a file, in a directory. -/
structure FileName (ν : Type*) where
  dir : List ν
  name : ν
deriving DecidableEq

namespace FileName

variable {ν : Type*}

def path (f : FileName ν) : List ν := f.dir ++ [f.name]

/-- A path ends with the file's own name. -/
theorem path_inj {f g : FileName ν} (h : f.path = g.path) : f = g := by
  obtain ⟨hdir, hname⟩ := List.append_inj' h rfl
  cases f
  cases g
  simp only [List.cons.injEq, and_true] at hdir hname
  subst hdir hname
  rfl

/-- A file does not lie above its directory. -/
theorem path_not_above (f : FileName ν) : ¬ f.path <+: f.dir := by
  intro h
  have hlen := h.length_le
  rw [path, List.length_append, List.length_singleton] at hlen
  omega

end FileName

/-- A tree of files with names in `ν` and contents over `β`: what exists stands in
a directory. -/
structure Files (ν β : Type*) where
  entry : List ν → Option (Entry β)
  root : entry [] = some .dir
  parent : ∀ p x, (entry (p ++ [x])).isSome → entry p = some .dir

namespace Files

variable {ν β : Type*} [DecidableEq ν]

/-- Whether something exists at a path. -/
def present (fs : Files ν β) (p : List ν) : Bool := (fs.entry p).isSome

/-- What a file holds; nothing can be read from a directory. -/
def content (fs : Files ν β) (p : List ν) : Option (List β) :=
  match fs.entry p with
  | some (.file c) => some c
  | _ => none

omit [DecidableEq ν] in
/-- Only a file can be read. -/
theorem content_eq_some {fs : Files ν β} {p : List ν} {c : List β} :
    fs.content p = some c ↔ fs.entry p = some (.file c) := by
  unfold content
  split
  · next c' hc => simp [hc]
  · next hno =>
      constructor
      · rintro ⟨⟩
      · intro h
        exact absurd h (hno c)

/-- A file put into a directory, in the place of nothing or of a file. -/
def put (fs : Files ν β) (f : FileName ν) (c : List β) (hdir : fs.entry f.dir = some .dir)
    (hfile : fs.entry f.path ≠ some .dir) : Files ν β where
  entry := Function.update fs.entry f.path (some (.file c))
  root := by
    have hroot : [] ≠ f.path := by simp [FileName.path]
    rw [Function.update_of_ne hroot, fs.root]
  parent := by
    intro p x h
    have hp : fs.entry p = some .dir := by
      by_cases heq : p ++ [x] = f.path
      · rw [(List.append_inj' heq rfl).1, hdir]
      · rw [Function.update_of_ne heq] at h
        exact fs.parent p x h
    have hne : p ≠ f.path := by
      rintro rfl
      exact hfile hp
    rw [Function.update_of_ne hne, hp]

/-- A directory with all those above it; it fails if one of them is a file. -/
def createDirAll (fs : Files ν β) (p : List ν) : Option (Files ν β) :=
  if p.inits.any fun q => (fs.content q).isSome then none
  else some {
    entry := fun q => if q <+: p then some .dir else fs.entry q
    root := by simp
    parent := by
      intro q x h
      by_cases hq : q <+: p
      · exact if_pos hq
      · have hqx : ¬ q ++ [x] <+: p := fun hqx => hq ((List.prefix_append q [x]).trans hqx)
        rw [if_neg hqx] at h
        rw [if_neg hq]
        exact fs.parent q x h }

/-- A file opened for writing and created if it does not exist; what it holds is
not removed. It fails for a directory, and if the file's directory does not exist. -/
def openFile (fs : Files ν β) (f : FileName ν) : Option (Files ν β) :=
  match hfile : fs.entry f.path, hdir : fs.entry f.dir with
  | some (.file _), _ => some fs
  | none, some .dir => some (fs.put f [] hdir (by simp [hfile]))
  | _, _ => none

/-- A write at the beginning of an opened file. -/
def write (fs : Files ν β) (f : FileName ν) (new : List β) : Option (Files ν β) :=
  match h : fs.entry f.path with
  | some (.file old) =>
      some (fs.put f (new ++ old.drop new.length) (fs.parent _ _ (Option.isSome_of_mem h))
        (by simp [h]))
  | _ => none

/-! ## What the calls change -/

/-- Everything that existed is as it was. -/
def Keeps (fs fs' : Files ν β) : Prop := ∀ p e, fs.entry p = some e → fs'.entry p = some e

/-- The only obstacle is a file in the place of a directory. -/
theorem createDirAll_eq_none {fs : Files ν β} {p : List ν} :
    fs.createDirAll p = none ↔ ∃ q c, q <+: p ∧ fs.entry q = some (.file c) := by
  unfold createDirAll
  rw [ite_eq_left_iff]
  simp only [List.any_eq_true, List.mem_inits, Option.isSome_iff_exists, content_eq_some]
  grind

/-- Afterwards the path and all those above it are directories. -/
theorem entry_createDirAll {fs fs' : Files ν β} {p : List ν} (h : fs.createDirAll p = some fs')
    (q : List ν) : fs'.entry q = if q <+: p then some .dir else fs.entry q := by
  unfold createDirAll at h
  split at h
  · cases h
  · obtain rfl := Option.some.inj h
    rfl

theorem keeps_createDirAll {fs fs' : Files ν β} {p : List ν} (h : fs.createDirAll p = some fs') :
    fs.Keeps fs' := by
  intro q e he
  rw [entry_createDirAll h]
  split
  · next hq =>
      -- A file there would have made the call fail.
      cases e with
      | dir => rfl
      | file c => rw [createDirAll_eq_none.mpr ⟨q, c, hq, he⟩] at h; cases h
  · exact he

/-- A file that exists is left alone; otherwise there is an empty one. -/
theorem openFile_eq_some {fs fs' : Files ν β} {f : FileName ν} (h : fs.openFile f = some fs') :
    (∃ c, fs.entry f.path = some (.file c) ∧ fs' = fs) ∨
      fs.entry f.path = none ∧
        fs'.entry = Function.update fs.entry f.path (some (.file [])) := by
  unfold openFile at h
  split at h
  · next c hfile =>
      exact .inl ⟨c, hfile, (Option.some.inj h).symm⟩
  · next hfile _ =>
      obtain rfl := Option.some.inj h
      exact .inr ⟨hfile, rfl⟩
  · cases h

/-- The two obstacles: a directory in the place of the file, and no directory for it. -/
theorem openFile_eq_none {fs : Files ν β} {f : FileName ν} (h : fs.openFile f = none) :
    fs.entry f.path = some .dir ∨ fs.entry f.dir ≠ some .dir := by
  unfold openFile at h
  split at h
  · cases h
  · cases h
  · next hfile hnone =>
      cases hentry : fs.entry f.path with
      | none => exact .inr fun hdir => hnone hentry hdir
      | some e =>
          cases e with
          | dir => exact .inl rfl
          | file c => exact (hfile c hentry).elim

/-- What the file held behind the new content is still there. -/
theorem write_eq_some {fs fs' : Files ν β} {f : FileName ν} {new : List β}
    (h : fs.write f new = some fs') :
    ∃ old, fs.entry f.path = some (.file old) ∧
      fs'.entry = Function.update fs.entry f.path (some (.file (new ++ old.drop new.length))) := by
  unfold write at h
  split at h
  · next old hfile =>
      obtain rfl := Option.some.inj h
      exact ⟨old, hfile, rfl⟩
  · cases h

theorem write_isSome {fs : Files ν β} {f : FileName ν} {old : List β} (new : List β)
    (h : fs.entry f.path = some (.file old)) : (fs.write f new).isSome := by
  unfold write
  split
  · rfl
  · next hno => exact absurd h (hno old)

end Files

end Kit
