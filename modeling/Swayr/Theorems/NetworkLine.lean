import Swayr.Bar.Nmcli

/-!
# Decoding the network line

`nmcli` escapes the colons and backslashes in its fields; the module splits at
every colon and removes no backslash. The line of the access point in use always
has enough parts (`readLine_encodeLine`), but they are its fields only if none of them
needed escaping.
-/

namespace Swayr.Theorems.NetworkLine

open Shared Bar Kit.Text

/-! ## What nmcli prints -/

structure AccessPoint where
  inUse : Bool
  ssid : Text
  signal : Text
  bars : Text
deriving DecidableEq, Repr

/-- A backslash before every colon and every backslash. -/
def escape (field : Text) : Text :=
  field.flatMap fun c => if c = ':' ∨ c = '\\' then ['\\', c] else [c]

def encodeLine (ap : AccessPoint) : Text :=
  (if ap.inUse then '*' else ' ') ::
    ':' :: (escape ap.ssid ++ ':' :: (escape ap.signal ++ ':' :: escape ap.bars))

def encode (aps : List AccessPoint) : Text := aps.flatMap fun ap => encodeLine ap ++ ['\n']

/-- No field has a line break, and none is completed to one by the line's end. -/
structure OneLine (ap : AccessPoint) : Prop where
  ssid : '\n' ∉ ap.ssid
  signal : '\n' ∉ ap.signal
  bars : '\n' ∉ ap.bars
  noReturn : ap.bars.getLast? ≠ some '\r'

/-- Nothing to escape. -/
def Plain (field : Text) : Prop := ':' ∉ field ∧ '\\' ∉ field

instance (field : Text) : Decidable (Plain field) := inferInstanceAs (Decidable (_ ∧ _))

/-! ## Escaped fields -/

theorem escape_cons (c : Char) (s : Text) :
    escape (c :: s) = (if c = ':' ∨ c = '\\' then ['\\', c] else [c]) ++ escape s := rfl

/-- Escaping adds backslashes only. -/
theorem mem_escape_iff {c : Char} (hc : c ≠ '\\') {s : Text} : c ∈ escape s ↔ c ∈ s := by
  induction s with
  | nil => simp [escape]
  | cons d s ih =>
      rw [escape_cons, List.mem_append, ih, List.mem_cons]
      refine or_congr_left ?_
      split
      · simp [hc]
      · simp

theorem escape_of_plain {s : Text} (h : Plain s) : escape s = s := by
  induction s with
  | nil => rfl
  | cons c s ih =>
      obtain ⟨hcolon, hback⟩ := h
      rw [List.mem_cons, not_or] at hcolon hback
      rw [escape_cons, if_neg (by tauto), ih ⟨hcolon.2, hback.2⟩]
      rfl

theorem length_le_length_escape (s : Text) : s.length ≤ (escape s).length := by
  induction s with
  | nil => simp
  | cons c s ih =>
      rw [escape_cons, List.length_append, List.length_cons]
      split <;> simp only [List.length_cons, List.length_nil] <;> omega

/-- Only what is plain is left as it is. -/
theorem plain_of_escape_eq {s : Text} (h : escape s = s) : Plain s := by
  induction s with
  | nil => simp [Plain]
  | cons c s ih =>
      rw [escape_cons] at h
      split at h
      · -- the escaped text is longer
        have hlen := congrArg List.length h
        have hle := length_le_length_escape s
        simp only [List.cons_append, List.nil_append, List.length_cons] at hlen
        omega
      · rename_i hc
        have hs := ih (List.cons.inj h).2
        rw [not_or] at hc
        exact ⟨by simp [hs.1, Ne.symm hc.1], by simp [hs.2, Ne.symm hc.2]⟩

/-- The first part of an escaped field is the field only if nothing was escaped, and
then it is the only part. -/
theorem splitOn_escape (s : Text) :
    ∃ part parts, (escape s).splitOn ':' = part :: parts ∧ (part = s ↔ Plain s) ∧
      (Plain s → parts = []) := by
  obtain ⟨part, parts, hsplit⟩ := List.exists_cons_of_ne_nil (List.splitOn_ne_nil ':' (escape s))
  have hplain : Plain s → part = s ∧ parts = [] := by
    intro h
    rw [escape_of_plain h, List.splitOn_eq_singleton h.1] at hsplit
    obtain ⟨rfl, rfl⟩ := List.cons.inj hsplit
    exact ⟨rfl, rfl⟩
  refine ⟨part, parts, hsplit, ⟨?_, fun h => (hplain h).1⟩, fun h => (hplain h).2⟩
  rintro rfl
  -- a part has no colon, so the field has none and is not split
  have hcolon : ':' ∉ part := not_mem_of_mem_splitOn (hsplit ▸ List.mem_cons_self)
  rw [List.splitOn_eq_singleton (by rwa [mem_escape_iff (by decide)])] at hsplit
  exact plain_of_escape_eq (List.cons.inj hsplit).1

/-! ## Lines -/

theorem getLast?_escape (s : Text) : (escape s).getLast? = s.getLast? := by
  rcases List.eq_nil_or_concat s with rfl | ⟨front, c, rfl⟩
  · rfl
  · have hlast : escape (front.concat c) =
        escape front ++ (if c = ':' ∨ c = '\\' then ['\\', c] else [c]) := by
      simp [escape]
    rw [hlast, List.concat_eq_append, List.getLast?_concat]
    split <;> simp

/-- A line does not end with a carriage return, since no field does. -/
theorem stripReturn_encodeLine {ap : AccessPoint} (h : OneLine ap) :
    stripReturn (encodeLine ap) = encodeLine ap := by
  refine if_neg ?_
  have hsplit : encodeLine ap = ((if ap.inUse then '*' else ' ') ::
      ':' :: (escape ap.ssid ++ ':' :: escape ap.signal) ++ [':']) ++ escape ap.bars := by
    simp [encodeLine]
  rw [hsplit, List.getLast?_append, getLast?_escape, List.getLast?_concat]
  cases hbars : ap.bars.getLast? with
  | none => simp
  | some c => simpa [hbars] using h.noReturn

theorem newline_notMem_encodeLine {ap : AccessPoint} (h : OneLine ap) : '\n' ∉ encodeLine ap := by
  have hesc : ∀ s : Text, '\n' ∉ s → '\n' ∉ escape s := fun s hs => by
    rwa [mem_escape_iff (by decide)]
  unfold encodeLine
  simp only [List.mem_cons, List.mem_append, not_or]
  refine ⟨?_, by decide, hesc _ h.ssid, by decide, hesc _ h.signal, by decide, hesc _ h.bars⟩
  split <;> decide

/-- Each access point is a line. -/
theorem lines_encode {aps : List AccessPoint} (h : ∀ ap ∈ aps, OneLine ap) :
    lines (encode aps) = aps.map encodeLine := by
  have hsplit : (encode aps).splitOn '\n' = aps.map encodeLine ++ [[]] := by
    induction aps with
    | nil => rfl
    | cons ap aps ih =>
        rw [encode, List.flatMap_cons, List.append_assoc, List.singleton_append,
          List.splitOn_append_cons_self_of_not_mem
            (newline_notMem_encodeLine (h ap List.mem_cons_self))]
        exact congrArg _ (ih fun ap hap => h ap (List.mem_cons_of_mem _ hap))
  unfold lines
  simp only [hsplit]
  rw [List.dropLast_concat, List.getLast?_concat, List.map_map]
  simp only [Option.toList_some, List.isEmpty_nil, Bool.not_true, Bool.false_eq_true,
    not_false_eq_true, List.filter_cons_of_neg, List.filter_nil, List.append_nil]
  exact List.map_congr_left fun ap hap => stripReturn_encodeLine (h ap hap)

/-- The line with the star is that of the first access point in use. -/
theorem find_encodeLine (aps : List AccessPoint) :
    (aps.map encodeLine).find? (fun line => line.head? == some '*') =
      (aps.find? (·.inUse)).map encodeLine := by
  rw [List.find?_map]
  congr 2
  funext ap
  cases hin : ap.inUse <;> simp [encodeLine, hin]

/-! ## The decoder -/

/-- The parts behind the first colon. -/
theorem parts_encodeLine (ap : AccessPoint) :
    ((encodeLine ap).splitOn ':').drop 1 = (escape ap.ssid).splitOn ':' ++
      ((escape ap.signal).splitOn ':' ++ (escape ap.bars).splitOn ':') := by
  have hflag : ':' ∉ [if ap.inUse then '*' else ' '] := by
    split <;> decide
  have hsplit : encodeLine ap = [if ap.inUse then '*' else ' '] ++
      ':' :: (escape ap.ssid ++ ':' :: (escape ap.signal ++ ':' :: escape ap.bars)) := rfl
  rw [hsplit, List.splitOn_append_cons_self_of_not_mem hflag, List.splitOn_append_cons_self,
    List.splitOn_append_cons_self]
  rfl

/-- There are always three parts. They are the fields exactly if nothing was
escaped in them. -/
theorem readLine_encodeLine (st : NmcliState) (ap : AccessPoint) :
    ∃ name signal bars, st.readLine (encodeLine ap) =
        some { st with name := some name, signal := some signal, bars := some bars } ∧
      ((name = ap.ssid ∧ signal = ap.signal ∧ bars = ap.bars) ↔
        Plain ap.ssid ∧ Plain ap.signal ∧ Plain ap.bars) := by
  obtain ⟨p₁, q₁, h₁, hp₁, hq₁⟩ := splitOn_escape ap.ssid
  obtain ⟨p₂, q₂, h₂, hp₂, hq₂⟩ := splitOn_escape ap.signal
  obtain ⟨p₃, q₃, h₃, hp₃, hq₃⟩ := splitOn_escape ap.bars
  have hparts : ((encodeLine ap).splitOn ':').drop 1 =
      p₁ :: (q₁ ++ p₂ :: (q₂ ++ p₃ :: q₃)) := by
    rw [parts_encodeLine, h₁, h₂, h₃]
    rfl
  -- Every field gives at least one part, so there are enough of them.
  obtain ⟨signal, bars, rest, htail⟩ : ∃ signal bars rest,
      q₁ ++ p₂ :: (q₂ ++ p₃ :: q₃) = signal :: bars :: rest := by
    cases q₁ with
    | nil => cases q₂ <;> exact ⟨_, _, _, rfl⟩
    | cons a q₁ => cases q₁ <;> exact ⟨_, _, _, rfl⟩
  refine ⟨p₁, signal, bars, ?_, ?_⟩
  · unfold NmcliState.readLine
    rw [hparts, htail]
  · constructor
    · -- A field that is split shifts those behind it, so they are recovered in their order.
      rintro ⟨hname, hsignal, hbars⟩
      have hplain₁ := hp₁.mp hname
      rw [hq₁ hplain₁, List.nil_append, List.cons.injEq] at htail
      have hplain₂ := hp₂.mp (htail.1.trans hsignal)
      rw [hq₂ hplain₂, List.nil_append, List.cons.injEq] at htail
      exact ⟨hplain₁, hplain₂, hp₃.mp (htail.2.1.trans hbars)⟩
    · rintro ⟨hplain₁, hplain₂, hplain₃⟩
      rw [hq₁ hplain₁, hq₂ hplain₂, List.nil_append, List.nil_append, List.cons.injEq,
        List.cons.injEq] at htail
      obtain ⟨rfl, rfl, -⟩ := htail
      exact ⟨hp₁.mpr hplain₁, hp₂.mpr hplain₂, hp₃.mpr hplain₃⟩

/-- The state shows the first access point in use, or that there is none. -/
structure Shows (aps : List AccessPoint) (st : NmcliState) : Prop where
  name : st.name = (aps.find? (·.inUse)).map AccessPoint.ssid
  signal : st.signal = (aps.find? (·.inUse)).map AccessPoint.signal
  bars : st.bars = (aps.find? (·.inUse)).map AccessPoint.bars

/-- What a successful `nmcli` prints is read without a panic. The state shows the
access point in use exactly if none of its fields has a colon or a backslash. -/
theorem read_encode (st : NmcliState) (code : Option ℤ) {aps : List AccessPoint}
    (h : ∀ ap ∈ aps, OneLine ap) :
    ∃ st', st.read (.exited true code (some (encode aps))) = some st' ∧
      (Shows aps st' ↔ ∀ ap, aps.find? (·.inUse) = some ap →
        Plain ap.ssid ∧ Plain ap.signal ∧ Plain ap.bars) := by
  unfold NmcliState.read
  simp only [runNmcli, Option.map_some, Option.bind_eq_bind, Option.bind_some, lines_encode h,
    find_encodeLine]
  -- Only the line of the access point in use is read.
  cases hfind : aps.find? (·.inUse) with
  | none =>
      refine ⟨_, rfl, ?_⟩
      simp only [reduceCtorEq, false_implies, implies_true, iff_true]
      exact ⟨by rw [hfind]; rfl, by rw [hfind]; rfl, by rw [hfind]; rfl⟩
  | some ap =>
      obtain ⟨name, signal, bars, hread, hiff⟩ := readLine_encodeLine
        { st with name := none, signal := none, bars := none } ap
      simp only [Option.map_some, hread]
      refine ⟨_, rfl, ?_⟩
      constructor
      · rintro ⟨hname, hsignal, hbars⟩ _ ⟨rfl⟩
        rw [hfind] at hname hsignal hbars
        exact hiff.mp ⟨Option.some.inj hname, Option.some.inj hsignal, Option.some.inj hbars⟩
      · intro hplain
        obtain ⟨hname, hsignal, hbars⟩ := hiff.mpr (hplain ap rfl)
        exact ⟨by rw [hfind, hname]; rfl, by rw [hfind, hsignal]; rfl, by rw [hfind, hbars]; rfl⟩

/-- The text is no part of what is shown here. -/
theorem Shows.withText_iff {aps : List AccessPoint} {st : NmcliState} {text : Text} :
    Shows aps { st with cachedText := text } ↔ Shows aps st :=
  ⟨fun h => ⟨h.name, h.signal, h.bars⟩, fun h => ⟨h.name, h.signal, h.bars⟩⟩

/-- A refresh with what a successful `nmcli` prints fails at no `unwrap`: nothing but
the formatting of the text can panic. It shows the access point in use exactly if none
of its fields has a colon or a backslash. -/
theorem network_line_iff (R : RtFormat) (fmtStr : Text) (htmlEscape : Bool) (st : NmcliState)
    (code : Option ℤ) (aps : List AccessPoint) (h : ∀ ap ∈ aps, OneLine ap) :
    ∃ st', st.read (.exited true code (some (encode aps))) = some st' ∧
      st.refresh R (.exited true code (some (encode aps))) fmtStr htmlEscape =
        (substPlaceholders R fmtStr htmlEscape st'.placeholderValue).map
          (fun text => { st' with cachedText := text }) ∧
      ∀ text, (Shows aps { st' with cachedText := text } ↔
        ∀ ap, aps.find? (·.inUse) = some ap →
          Plain ap.ssid ∧ Plain ap.signal ∧ Plain ap.bars) := by
  obtain ⟨st', hread, hshows⟩ := read_encode st code h
  refine ⟨st', hread, ?_, fun text => Shows.withText_iff.trans hshows⟩
  unfold NmcliState.refresh
  rw [hread, Option.bind_eq_bind, Option.bind_some]
  exact Option.map_eq_bind.symm

/-- One access point, in use, with the given name. -/
def oneNetwork (ssid : Text) : List AccessPoint := [⟨true, ssid, "70".toList, "***".toList⟩]

/-- A network whose name is plain. -/
theorem network_line_iff_home :
    (∀ ap ∈ oneNetwork "home".toList, OneLine ap) ∧
      ∃ st', NmcliState.refresh .basic
          (.exited true (some 0) (some (encode (oneNetwork "home".toList))))
          "\x7bname\x7d".toList false ⟨[], none, none, none⟩ = some st' ∧
        Shows (oneNetwork "home".toList) st' := by
  have h : ∀ ap ∈ oneNetwork "home".toList, OneLine ap := by
    intro ap hap
    obtain rfl := List.mem_singleton.mp hap
    exact ⟨by decide, by decide, by decide, by decide⟩
  refine ⟨h, ?_⟩
  obtain ⟨st', -, hrefresh, hiff⟩ := network_line_iff .basic "\x7bname\x7d".toList false
    ⟨[], none, none, none⟩ (some 0) (oneNetwork "home".toList) h
  have hsome : (NmcliState.refresh .basic
      (.exited true (some 0) (some (encode (oneNetwork "home".toList)))) "\x7bname\x7d".toList
      false ⟨[], none, none, none⟩).isSome = true := by decide +kernel
  obtain ⟨shown, hshown⟩ := Option.isSome_iff_exists.mp hsome
  rw [hrefresh] at hshown
  obtain ⟨text, -, rfl⟩ := Option.map_eq_some_iff.mp hshown
  refine ⟨_, hrefresh.trans hshown, (hiff text).mpr ?_⟩
  rintro _ ⟨rfl⟩
  exact ⟨by decide, by decide, by decide⟩

/-- The network `a:b` is shown as `a\` with the signal `b`. -/
theorem network_line_colon :
    (NmcliState.refresh .basic (.exited true (some 0) (some (encode (oneNetwork "a:b".toList))))
        "\x7bname\x7d".toList false ⟨[], none, none, none⟩).map
      (fun st => (st.name, st.signal, st.bars)) =
    some (some "a\\".toList, some "b".toList, some "70".toList) := by
  decide +kernel

end Swayr.Theorems.NetworkLine
