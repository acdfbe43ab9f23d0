import Swayr.Shared.ConfigFile

/-!
# Programs that load their configuration at the same time

A config file that exists is never changed, and all programs load it, or all panic if
they cannot open it. If there is none, the programs create the same file, in whatever
order their calls come; one that reads it too early finds it empty.
-/

namespace Swayr.Theorems.ConfigFile

open Kit Shared

variable {T : Type} {places : Places} {acc : Access} {toml : Toml T}
  {fs₀ fs fs' : Files Text UInt8} {l l' : Loader T} {s : LoadState T} {labels : List Nat}

/-- The file that counts: the system's one only if the user has no config directory. -/
def chosen (places : Places) (fs : Files Text UInt8) : FileName Text :=
  if fs.present places.configDir then places.userFile else places.sysFile

/-! ## A config file exists -/

/-- Where a program can be while the files stay as they are. -/
inductive Settled (places : Places) (acc : Access) (toml : Toml T) (fs : Files Text UInt8) :
    Loader T → Prop
  | userDirExists : Settled places acc toml fs (.userDirExists .loadConfig)
  | sysFileExists : fs.present places.configDir = false →
      Settled places acc toml fs (.sysFileExists .loadConfig)
  | pathExists : Settled places acc toml fs (.pathExists (chosen places fs))
  | fileExists : Settled places acc toml fs (.fileExists (chosen places fs))
  | read : Settled places acc toml fs (.read (chosen places fs))
  | returned {l : Loader T} :
      l.result = some ((acc.read fs (chosen places fs).path).bind toml.parse) →
      Settled places acc toml fs l

/-- No call changes anything, and the file is found by each of them. -/
theorem settled_step (hfile : fs.present (chosen places fs).path = true)
    (hl : Settled places acc toml fs l) (h : l.step places acc toml fs = some (l', fs')) :
    fs' = fs ∧ Settled places acc toml fs l' := by
  cases hl with
  | userDirExists =>
      obtain ⟨rfl, rfl⟩ := Prod.mk.inj (Option.some.inj h)
      refine ⟨rfl, ?_⟩
      split
      · next hdir =>
          -- The user's directory exists, so that file is the one chosen.
          have hchosen : places.userFile = chosen places fs := (if_pos hdir).symm
          rw [hchosen]
          exact .pathExists
      · next hdir => exact .sysFileExists (Bool.not_eq_true _ ▸ hdir)
  | sysFileExists hdir =>
      obtain ⟨rfl, rfl⟩ := Prod.mk.inj (Option.some.inj h)
      have hchosen : chosen places fs = places.sysFile := if_neg (by simp [hdir])
      rw [← hchosen, if_pos hfile]
      exact ⟨rfl, .pathExists⟩
  | pathExists =>
      obtain ⟨rfl, rfl⟩ := Prod.mk.inj (Option.some.inj h)
      rw [if_pos hfile]
      exact ⟨rfl, .fileExists⟩
  | fileExists =>
      obtain ⟨rfl, rfl⟩ := Prod.mk.inj (Option.some.inj h)
      rw [if_pos hfile]
      exact ⟨rfl, .read⟩
  | read =>
      obtain ⟨rfl, rfl⟩ := Prod.mk.inj (Option.some.inj h)
      refine ⟨rfl, .returned ?_⟩
      -- A file that cannot be read or parsed is a panic.
      cases (acc.read fs (chosen places fs).path).bind toml.parse <;> rfl
  | returned hresult =>
      cases l <;> first | cases hresult | cases h

/-! ## No config file exists -/

/-- What a file that has just been created can hold. -/
def Created (toml : Toml T) (c : List UInt8) : Prop :=
  c = [] ∨ toml.toStringPretty toml.default = some c

/-- What the programs add to the files: directories for the user's config file, and
that file. -/
def Grown (places : Places) (toml : Toml T) (fs₀ fs : Files Text UInt8) : Prop :=
  ∀ q, fs.entry q = fs₀.entry q ∨ fs₀.entry q = none ∧
    (q <+: places.configDir ∧ fs.entry q = some .dir ∨
      q = places.userFile.path ∧ ∃ c, Created toml c ∧ fs.entry q = some (.file c))

/-- What was there is not touched. -/
theorem Grown.keeps (h : Grown places toml fs₀ fs) : fs₀.Keeps fs := by
  intro q e he
  rcases h q with hsame | ⟨hnone, -⟩
  · rw [hsame, he]
  · rw [hnone] at he
    cases he

/-- Only the entry of the user's file has changed, from nothing or from a new file. -/
theorem Grown.update {c : List UInt8} (h : Grown places toml fs₀ fs)
    (hfresh : fs₀.entry places.userFile.path = none) (hc : Created toml c)
    (hentry : fs'.entry = Function.update fs.entry places.userFile.path (some (.file c))) :
    Grown places toml fs₀ fs' := by
  intro q
  rw [hentry]
  by_cases hq : q = places.userFile.path
  · subst hq
    rw [Function.update_self]
    exact .inr ⟨hfresh, .inr ⟨rfl, c, hc, rfl⟩⟩
  · rw [Function.update_of_ne hq]
    exact h q

/-- The directories are new, or they were there. -/
theorem Grown.createDirAll (h : Grown places toml fs₀ fs)
    (hcreate : fs.createDirAll places.configDir = some fs') : Grown places toml fs₀ fs' := by
  intro q
  by_cases hq : q <+: places.configDir
  · cases hold : fs₀.entry q with
    | none =>
        refine .inr ⟨rfl, .inl ⟨hq, ?_⟩⟩
        rw [Files.entry_createDirAll hcreate, if_pos hq]
    | some e => exact .inl (Files.keeps_createDirAll hcreate q e (h.keeps q e hold))
  · rw [Files.entry_createDirAll hcreate, if_neg hq]
    exact h q

/-- The user's file is a new one, if it exists. -/
theorem Grown.userFile (h : Grown places toml fs₀ fs)
    (hfresh : fs₀.entry places.userFile.path = none) :
    fs.entry places.userFile.path = none ∨
      ∃ c, Created toml c ∧ fs.entry places.userFile.path = some (.file c) := by
  rcases h places.userFile.path with hsame | ⟨-, ⟨habove, -⟩ | ⟨-, hfile⟩⟩
  · exact .inl (hsame.trans hfresh)
  · exact (places.userFile.path_not_above habove).elim
  · exact .inr hfile

/-- A file above the user's config file was there from the start. -/
theorem Grown.file_above {q : List Text} {c : List UInt8} (h : Grown places toml fs₀ fs)
    (hq : q <+: places.configDir) (hfile : fs.entry q = some (.file c)) :
    acc.createDirAll fs₀ places.configDir = none := by
  refine permit_eq_none.mpr (.inr (Files.createDirAll_eq_none.mpr ⟨q, c, hq, ?_⟩))
  rcases h q with hsame | ⟨-, ⟨-, hdir⟩ | ⟨rfl, -⟩⟩
  · rw [← hsame, hfile]
  · rw [hfile] at hdir
    cases hdir
  · exact (places.userFile.path_not_above hq).elim

/-- Why a new config file of the user cannot be made or be read. -/
inductive CannotUse (places : Places) (acc : Access) (toml : Toml T) (fs₀ : Files Text UInt8) :
    Prop
  | createDirAll : acc.createDirAll fs₀ places.configDir = none → CannotUse places acc toml fs₀
  | toStringPretty : toml.toStringPretty toml.default = none → CannotUse places acc toml fs₀
  | mayWrite : acc.mayWrite places.userFile.path = false → CannotUse places acc toml fs₀
  | hasRoom : acc.hasRoom = false → CannotUse places acc toml fs₀
  | mayRead : acc.mayRead places.userFile.path = false → CannotUse places acc toml fs₀

/-- `get_config_file_path` has been called for the user's file. -/
def OwnCall (places : Places) (caller : Caller) : Prop :=
  caller = .loadConfig ∨ caller = .saveConfig places.userFile

/-- The user's file exists. -/
def HasFile (places : Places) (fs : Files Text UInt8) : Prop :=
  ∃ c, fs.entry places.userFile.path = some (.file c)

/-- Where a program can be, and what it then knows of the files, if there was no
config file at the start. -/
inductive Starting (places : Places) (acc : Access) (toml : Toml T) (fs₀ fs : Files Text UInt8) :
    Loader T → Prop
  | userDirExists {caller : Caller} : OwnCall places caller →
      Starting places acc toml fs₀ fs (.userDirExists caller)
  | sysFileExists {caller : Caller} : OwnCall places caller →
      fs₀.present places.configDir = false → Starting places acc toml fs₀ fs (.sysFileExists caller)
  | createDir {caller : Caller} : OwnCall places caller →
      Starting places acc toml fs₀ fs (.createDir caller)
  | pathExists : fs.present places.configDir = true →
      Starting places acc toml fs₀ fs (.pathExists places.userFile)
  | openSaved : fs.present places.configDir = true →
      Starting places acc toml fs₀ fs (.openSaved places.userFile places.userFile)
  | writeAll {content : List UInt8} : HasFile places fs →
      toml.toStringPretty toml.default = some content →
      Starting places acc toml fs₀ fs (.writeAll places.userFile places.userFile content)
  | fileExists : HasFile places fs → Starting places acc toml fs₀ fs (.fileExists places.userFile)
  | read : HasFile places fs → Starting places acc toml fs₀ fs (.read places.userFile)
  | parsed {l : Loader T} {c : List UInt8} : Created toml c → l.result = some (toml.parse c) →
      Starting places acc toml fs₀ fs l
  | cannotUse : CannotUse places acc toml fs₀ → Starting places acc toml fs₀ fs .panicked

/-- What the other programs' calls leave a program to know. -/
structure Further (places : Places) (fs fs' : Files Text UInt8) : Prop where
  dir : fs.present places.configDir = true → fs'.present places.configDir = true
  file : HasFile places fs → HasFile places fs'

theorem Further.refl (fs : Files Text UInt8) : Further places fs fs := ⟨id, id⟩

theorem Further.of_keeps (h : fs.Keeps fs') : Further places fs fs' where
  dir hdir := by
    obtain ⟨e, he⟩ := Option.isSome_iff_exists.mp hdir
    exact Option.isSome_of_mem (h _ e he)
  file := fun ⟨c, hc⟩ => ⟨c, h _ _ hc⟩

theorem Further.of_update {c : List UInt8}
    (hentry : fs'.entry = Function.update fs.entry places.userFile.path (some (.file c))) :
    Further places fs fs' where
  dir hdir := by
    have hne : places.configDir ≠ places.userFile.path := by simp [Places.userFile, FileName.path]
    rw [Files.present, hentry, Function.update_of_ne hne]
    exact hdir
  file := fun _ => ⟨c, by rw [hentry, Function.update_self]⟩

/-- What a program knows of the files stays true. -/
theorem Starting.mono (h : Further places fs fs') (hl : Starting places acc toml fs₀ fs l) :
    Starting places acc toml fs₀ fs' l := by
  cases hl with
  | userDirExists hcaller => exact .userDirExists hcaller
  | sysFileExists hcaller hdir => exact .sysFileExists hcaller hdir
  | createDir hcaller => exact .createDir hcaller
  | pathExists hdir => exact .pathExists (h.dir hdir)
  | openSaved hdir => exact .openSaved (h.dir hdir)
  | writeAll hfile hcontent => exact .writeAll (h.file hfile) hcontent
  | fileExists hfile => exact .fileExists (h.file hfile)
  | read hfile => exact .read (h.file hfile)
  | parsed hc hresult => exact .parsed hc hresult
  | cannotUse hno => exact .cannotUse hno

theorem starting_goOn {caller : Caller} (hcaller : OwnCall places caller)
    (hdir : fs.present places.configDir = true) :
    Starting places acc toml fs₀ fs (caller.goOn places.userFile) := by
  rcases hcaller with rfl | rfl
  · exact .pathExists hdir
  · exact .openSaved hdir

/-- What one call comes to: the files have grown, the other programs' knowledge still
holds, and the program is where it can be. -/
def Moved (places : Places) (acc : Access) (toml : Toml T) (fs₀ fs : Files Text UInt8)
    (next : Loader T × Files Text UInt8) : Prop :=
  Grown places toml fs₀ next.2 ∧ Further places fs next.2 ∧
    Starting places acc toml fs₀ next.2 next.1

/-- A call that changes no file. -/
theorem Moved.stay (h : Grown places toml fs₀ fs) (hl : Starting places acc toml fs₀ fs l) :
    Moved places acc toml fs₀ fs (l, fs) :=
  ⟨h, .refl fs, hl⟩

section Fresh

variable {next : Loader T × Files Text UInt8} (hgrown : Grown places toml fs₀ fs)
include hgrown

/-- The system's file does not come into being, unless it is the user's one. -/
theorem starting_sysFileExists {caller : Caller} (hcaller : OwnCall places caller)
    (hsys : fs₀.entry places.sysFile.path = none)
    (h : (Loader.sysFileExists caller).step places acc toml fs = some next) :
    Moved places acc toml fs₀ fs next := by
  obtain rfl := Option.some.inj h
  refine .stay hgrown ?_
  split
  · next hpresent =>
      rcases hgrown places.sysFile.path with hsame | ⟨-, ⟨habove, -⟩ | ⟨heq, c, -, hfile⟩⟩
      · rw [Files.present, hsame, hsys] at hpresent
        cases hpresent
      · exact (places.apart habove).elim
      · rw [FileName.path_inj heq]
        rw [heq] at hfile
        have hdir := fs.parent _ _ (Option.isSome_of_mem hfile)
        exact starting_goOn hcaller (Option.isSome_of_mem hdir)
  · exact .createDir hcaller

/-- The directory is there afterwards, whoever has made it. -/
theorem starting_createDir {caller : Caller} (hcaller : OwnCall places caller)
    (h : (Loader.createDir caller).step places acc toml fs = some next) :
    Moved places acc toml fs₀ fs next := by
  obtain rfl := Option.some.inj h
  cases hcreate : acc.createDirAll fs places.configDir with
  | none =>
      refine .stay hgrown (.cannotUse (.createDirAll ?_))
      rcases permit_eq_none.mp hcreate with hmay | hfile
      · exact permit_eq_none.mpr (.inl hmay)
      · obtain ⟨q, c, hq, hfile⟩ := Files.createDirAll_eq_none.mp hfile
        exact hgrown.file_above hq hfile
  | some fs' =>
      obtain ⟨-, hcreate⟩ := permit_eq_some.mp hcreate
      refine ⟨hgrown.createDirAll hcreate, .of_keeps (Files.keeps_createDirAll hcreate),
        starting_goOn hcaller ?_⟩
      rw [Files.present, Files.entry_createDirAll hcreate, if_pos List.prefix_rfl]
      rfl

variable (hfresh : fs₀.entry places.userFile.path = none)
include hfresh

theorem starting_pathExists
    (h : (Loader.pathExists places.userFile).step places acc toml fs = some next) :
    Moved places acc toml fs₀ fs next := by
  obtain rfl := Option.some.inj h
  refine .stay hgrown ?_
  split
  · next hpresent =>
      rcases hgrown.userFile hfresh with hnone | ⟨c, -, hfile⟩
      · rw [Files.present, hnone] at hpresent
        cases hpresent
      · exact .fileExists ⟨c, hfile⟩
  · exact .userDirExists (.inr rfl)

/-- The file is there afterwards, and what another program has written is not removed. -/
theorem starting_openSaved (hdir : fs.present places.configDir = true)
    (h : (Loader.openSaved places.userFile places.userFile).step places acc toml fs = some next) :
    Moved places acc toml fs₀ fs next := by
  obtain rfl := Option.some.inj h
  cases hcontent : toml.toStringPretty toml.default with
  | none => exact .stay hgrown (.cannotUse (.toStringPretty hcontent))
  | some content =>
      cases hopen : acc.openFile fs places.userFile with
      | none =>
          rcases permit_eq_none.mp hopen with hmay | hopen
          · exact .stay hgrown (.cannotUse (.mayWrite hmay))
          -- The file is no directory, so its directory is none either.
          refine .stay hgrown (.cannotUse (.createDirAll ?_))
          rcases Files.openFile_eq_none hopen with hisdir | hnodir
          · rcases hgrown.userFile hfresh with hnone | ⟨c, -, hfile⟩
            · rw [hnone] at hisdir
              cases hisdir
            · rw [hfile] at hisdir
              cases hisdir
          · obtain ⟨e, he⟩ := Option.isSome_iff_exists.mp hdir
            cases e with
            | dir => exact (hnodir he).elim
            | file c => exact hgrown.file_above List.prefix_rfl he
      | some fs' =>
          obtain ⟨-, hopen⟩ := permit_eq_some.mp hopen
          rcases Files.openFile_eq_some hopen with ⟨c, hfile, rfl⟩ | ⟨-, hentry⟩
          · exact .stay hgrown (.writeAll ⟨c, hfile⟩ hcontent)
          · have hfurther := Further.of_update hentry
            refine ⟨hgrown.update hfresh (.inl rfl) hentry, hfurther, .writeAll ?_ hcontent⟩
            exact ⟨[], by rw [hentry, Function.update_self]⟩

/-- Whoever writes, writes the same. -/
theorem starting_writeAll {content : List UInt8} (hfile : HasFile places fs)
    (hcontent : toml.toStringPretty toml.default = some content)
    (h : (Loader.writeAll places.userFile places.userFile content).step places acc toml fs =
      some next) : Moved places acc toml fs₀ fs next := by
  obtain rfl := Option.some.inj h
  obtain ⟨c, hc⟩ := hfile
  cases hwrite : acc.write fs places.userFile content with
  | none =>
      rcases permit_eq_none.mp hwrite with hroom | hwrite
      · exact .stay hgrown (.cannotUse (.hasRoom hroom))
      · have hsome := Files.write_isSome content hc
        rw [hwrite] at hsome
        cases hsome
  | some fs' =>
      obtain ⟨-, hwrite⟩ := permit_eq_some.mp hwrite
      obtain ⟨old, hold, hentry⟩ := Files.write_eq_some hwrite
      -- Nothing is left of what the file held: that was nothing, or the same content.
      have hnew : content ++ old.drop content.length = content := by
        rcases hgrown.userFile hfresh with hnone | ⟨c', hcreated, hfile'⟩
        · rw [hnone] at hold
          cases hold
        · obtain rfl : c' = old := by
            rw [hfile'] at hold
            exact Entry.file.inj (Option.some.inj hold)
          rcases hcreated with rfl | hsaved
          · simp
          · obtain rfl := Option.some.inj (hsaved.symm.trans hcontent)
            simp
      rw [hnew] at hentry
      refine ⟨hgrown.update hfresh (.inr hcontent) hentry, .of_update hentry, .fileExists ?_⟩
      exact ⟨content, by rw [hentry, Function.update_self]⟩

/-- The file is a new one, so it is empty or complete. -/
theorem starting_read (hfile : HasFile places fs)
    (h : (Loader.read places.userFile).step places acc toml fs = some next) :
    Moved places acc toml fs₀ fs next := by
  obtain rfl := Option.some.inj h
  rcases hgrown.userFile hfresh with hnone | ⟨c, hcreated, hentry⟩
  · obtain ⟨c, hc⟩ := hfile
    rw [hnone] at hc
    cases hc
  · have hcontent := Files.content_eq_some.mpr hentry
    cases hmay : acc.mayRead places.userFile.path with
    | false =>
        have hread : acc.read fs places.userFile.path = none := permit_eq_none.mpr (.inl hmay)
        rw [hread]
        exact .stay hgrown (.cannotUse (.mayRead hmay))
    | true =>
        have hread : acc.read fs places.userFile.path = some c :=
          permit_eq_some.mpr ⟨hmay, hcontent⟩
        refine .stay hgrown (.parsed hcreated ?_)
        rw [hread, Option.bind_some]
        cases toml.parse c <;> rfl

/-- Any call of a program, whatever the others have done. -/
theorem starting_step
    (hsys : fs₀.present places.configDir = false → fs₀.entry places.sysFile.path = none)
    (hl : Starting places acc toml fs₀ fs l) (h : l.step places acc toml fs = some next) :
    Moved places acc toml fs₀ fs next := by
  cases hl with
  | userDirExists hcaller =>
      obtain rfl := Option.some.inj h
      refine .stay hgrown ?_
      split
      · next hdir => exact starting_goOn hcaller hdir
      · next hdir =>
          refine .sysFileExists hcaller ?_
          cases hold : fs₀.entry places.configDir with
          | none => exact Option.isSome_eq_false_iff.mpr (Option.isNone_iff_eq_none.mpr hold)
          | some e => exact (hdir (Option.isSome_of_mem (hgrown.keeps _ e hold))).elim
  | sysFileExists hcaller hdir => exact starting_sysFileExists hgrown hcaller (hsys hdir) h
  | createDir hcaller => exact starting_createDir hgrown hcaller h
  | pathExists _ => exact starting_pathExists hgrown hfresh h
  | openSaved hdir => exact starting_openSaved hgrown hfresh hdir h
  | writeAll hfile hcontent => exact starting_writeAll hgrown hfresh hfile hcontent h
  | fileExists hfile =>
      obtain rfl := Option.some.inj h
      obtain ⟨c, hc⟩ := hfile
      have hpresent : fs.present places.userFile.path = true := Option.isSome_of_mem hc
      rw [if_pos hpresent]
      exact .stay hgrown (.read ⟨c, hc⟩)
  | read hfile => exact starting_read hgrown hfresh hfile h
  | parsed _ hresult => cases l <;> first | cases hresult | cases h
  | cannotUse _ => cases h

end Fresh

/-! ## All programs -/

theorem loading_step {i : Nat} {s' : LoadState T}
    (h : (loading (some places) acc toml).step s i = some s') :
    ∃ l, (s.loaders i).step places acc toml s.fs = some (l, s'.fs) ∧
      s'.loaders = Function.update s.loaders i l := by
  obtain ⟨⟨l, fs⟩, hstep, rfl⟩ := Option.map_eq_some_iff.mp h
  exact ⟨l, hstep, rfl⟩

/-- All runs on files among which there is a config file. -/
theorem settled_run (hfile : fs₀.present (chosen places fs₀).path = true)
    (h : (loading (some places) acc toml).run (.start (some places) fs₀) labels = some s) :
    s.fs = fs₀ ∧ ∀ i, Settled places acc toml fs₀ (s.loaders i) := by
  have hinv : ∀ as s, (loading (some places) acc toml).run (.start (some places) fs₀) as = some s →
      s.fs = fs₀ ∧ ∀ i, Settled places acc toml fs₀ (s.loaders i) := by
    refine Guarded.history _ ⟨rfl, fun _ => .userDirExists⟩ ?_
    rintro _ s i s' ⟨rfl, hall⟩ hstep
    obtain ⟨l, hl, hloaders⟩ := loading_step hstep
    obtain ⟨hfs, hsettled⟩ := settled_step hfile (hall i) hl
    refine ⟨hfs, fun j => ?_⟩
    rw [hloaders, Function.update_apply]
    split
    · exact hsettled
    · exact hall j
  exact hinv labels s h

/-- All runs on files without a config file. -/
theorem starting_run (hnone : fs₀.present (chosen places fs₀).path = false)
    (h : (loading (some places) acc toml).run (.start (some places) fs₀) labels = some s) :
    Grown places toml fs₀ s.fs ∧ ∀ i, Starting places acc toml fs₀ s.fs (s.loaders i) := by
  have hsys : fs₀.present places.configDir = false → fs₀.entry places.sysFile.path = none := by
    intro hdir
    rw [chosen, if_neg (by simp [hdir])] at hnone
    exact Option.isNone_iff_eq_none.mp (Option.isSome_eq_false_iff.mp hnone)
  have hfresh : fs₀.entry places.userFile.path = none := by
    cases hdir : fs₀.present places.configDir with
    | true =>
        rw [chosen, if_pos hdir] at hnone
        exact Option.isNone_iff_eq_none.mp (Option.isSome_eq_false_iff.mp hnone)
    | false =>
        -- Without its directory there is no file.
        refine Option.not_isSome_iff_eq_none.mp fun hsome => ?_
        have hparent : fs₀.entry places.configDir = some .dir := fs₀.parent _ _ hsome
        rw [Files.present, hparent] at hdir
        cases hdir
  have hinv : ∀ as s, (loading (some places) acc toml).run (.start (some places) fs₀) as = some s →
      Grown places toml fs₀ s.fs ∧ ∀ i, Starting places acc toml fs₀ s.fs (s.loaders i) := by
    refine Guarded.history _ ⟨fun _ => .inl rfl, fun _ => .userDirExists (.inl rfl)⟩ ?_
    rintro _ s i s' ⟨hgrown, hall⟩ hstep
    obtain ⟨l, hl, hloaders⟩ := loading_step hstep
    obtain ⟨hgrown', hfurther, hstarting⟩ := starting_step hgrown hfresh hsys (hall i) hl
    refine ⟨hgrown', fun j => ?_⟩
    rw [hloaders, Function.update_apply]
    split
    · exact hstarting
    · exact (hall j).mono hfurther
  exact hinv labels s h

/-- Without its places no program makes a call: each has panicked. -/
theorem lost_run (h : (loading none acc toml).run (.start none fs₀) labels = some s) :
    s = .start none fs₀ := by
  cases labels with
  | nil => exact (Option.some.inj h).symm
  | cons i labels => cases h

/-- What a program can get, by the files at the start: what the config file that
counts says, if it can be opened, or else what a new one says, written or still empty.
It panics also if a new one cannot be used, and if it knows no places to look at. -/
def Expected (home : Option Places) (acc : Access) (toml : Toml T) (fs₀ : Files Text UInt8)
    (r : Option T) : Prop :=
  match home with
  | none => r = none
  | some places =>
      if fs₀.present (chosen places fs₀).path then
        r = (acc.read fs₀ (chosen places fs₀).path).bind toml.parse
      else (∃ c, Created toml c ∧ r = toml.parse c) ∨ r = none ∧ CannotUse places acc toml fs₀

/-- A result comes from the file that counts. -/
theorem expected_of_settled {r : Option T} (hfile : fs₀.present (chosen places fs₀).path = true)
    (hl : Settled places acc toml fs₀ l) (hresult : l.result = some r) :
    Expected (some places) acc toml fs₀ r := by
  rw [Expected, if_pos hfile]
  cases hl with
  | returned hreturned =>
      rw [hreturned] at hresult
      exact (Option.some.inj hresult).symm
  | userDirExists | sysFileExists | pathExists | fileExists | read => cases hresult

/-- A result comes from a new file, or from the lack of one. -/
theorem expected_of_starting {r : Option T} (hnone : fs₀.present (chosen places fs₀).path = false)
    (hl : Starting places acc toml fs₀ fs l) (hresult : l.result = some r) :
    Expected (some places) acc toml fs₀ r := by
  rw [Expected, if_neg (by simp [hnone])]
  cases hl with
  | parsed hc hparsed =>
      rw [hparsed] at hresult
      exact .inl ⟨_, hc, (Option.some.inj hresult).symm⟩
  | cannotUse hno => exact .inr ⟨(Option.some.inj hresult).symm, hno⟩
  | userDirExists | sysFileExists | createDir | pathExists | openSaved | writeAll | fileExists
  | read => cases hresult

/-- No files at all. -/
def noFiles : Files Text UInt8 where
  entry p := if p = [] then some .dir else none
  root := rfl
  parent := by
    intro p x h
    simp at h

def barPlaces : Places where
  project := "swayrbar".toList
  configDir := ["home".toList, ".config".toList, "swayrbar".toList]
  apart := by decide

/-- A flag for a configuration. -/
def flagToml : Toml Bool where
  default := true
  toStringPretty flag := some [if flag then 49 else 48]
  readToString bytes := some (bytes.map fun b => Char.ofNat b.toNat)
  fromStr buf := if buf = ['1'] then some true else if buf = ['0'] then some false else none

def fullAccess : Access := ⟨fun _ => true, fun _ => true, fun _ => true, true⟩

end Swayr.Theorems.ConfigFile
