import Swayr.Cmds.Exec

/-!
# No window twice in a sequence

A run of the dispatcher over arbitrary commands in arbitrary, unrelated worlds.
Its switch actions split at the resets of the switch data into *stretches*; a
stretch is one switch sequence, or empty where nothing was begun before the
next reset. The invariant (`Tracks`) relates the stretch that is running to the
switch data: what was requested, and the origin, have been visited.
-/

namespace Swayr.Theorems.NoWindowTwice

open Cmds SwitchToMatchingData Focus Criteria

/-! ## Stretches -/

/-- What happens between two resets: the origin and the last recently used
window recorded by the initialisation, if there was one, and the ids passed to
`focus_window_by_id`. -/
structure Stretch where
  start : Option (Option Int × Option Int)
  requests : List Int

namespace Stretch

def idle : Stretch := ⟨none, []⟩

def origin (s : Stretch) : Option Int := s.start.bind Prod.fst

def log (s : Stretch) : List Action :=
  (s.start.map fun p => .initialized p.1 p.2).toList ++ s.requests.map .focus

/-- No id is requested twice, nor is the origin, and nothing is requested
without an initialisation. -/
structure Good (s : Stretch) : Prop where
  started : s.requests ≠ [] → s.start.isSome
  distinct : s.requests.Nodup
  origin_not_mem : ∀ i, s.origin = some i → i ∉ s.requests

end Stretch

/-- A stretch and the reset that ends it, with the request for the origin that
ends the sequence, if there is one. -/
structure Ended extends Stretch where
  back : Option Int

namespace Ended

def log (e : Ended) : List Action := e.toStretch.log ++ .reset :: (e.back.map .focus).toList

/-- Besides, the request after the reset is for the origin. -/
structure Good (e : Ended) : Prop extends e.toStretch.Good where
  back_eq : ∀ i, e.back = some i → e.origin = some i

end Ended

/-! ## The invariant -/

/-- The running stretch as the switch data remember it. -/
inductive Tracks : Stretch → SwitchToMatchingData → Prop
  | idle {stm} : stm.visited = [] → stm.lru = none → stm.origin = none → Tracks .idle stm
  | running {ids : List Int} (stm) : stm.visited ≠ [] → ids.Nodup →
      (∀ i ∈ ids, i ∈ stm.visited) →
      (∀ i, stm.origin = some i → i ∈ stm.visited ∧ i ∉ ids ∧ stm.lru ≠ some i) →
      Tracks ⟨some (stm.origin, stm.lru), ids⟩ stm

theorem Tracks.good {now : Stretch} {stm : SwitchToMatchingData} (h : Tracks now stm) :
    now.Good := by
  cases h with
  | idle _ _ _ => exact ⟨by simp [Stretch.idle], by simp [Stretch.idle], by simp [Stretch.idle]⟩
  | running _ _ hnodup _ horigin => exact ⟨by simp, hnodup, fun i hi => (horigin i hi).2.1⟩

/-- From the running stretch `now` the actions `acts` lead to the switch data
`stm`: they end some stretches and leave one running that `stm` tracks. -/
def Leads (now : Stretch) (acts : List Action) (stm : SwitchToMatchingData) : Prop :=
  ∃ (done : List Ended) (now' : Stretch),
    now.log ++ acts = done.flatMap Ended.log ++ now'.log ∧ (∀ e ∈ done, e.Good) ∧
      Tracks now' stm

variable {now : Stretch} {stm stm' : SwitchToMatchingData} {acts acts' : List Action}

theorem Tracks.leads (h : Tracks now stm) : Leads now [] stm := ⟨[], now, by simp, by simp, h⟩

/-- One list of actions behind the other. -/
theorem Leads.append (h : Leads now acts stm)
    (h' : ∀ now', Tracks now' stm → Leads now' acts' stm') : Leads now (acts ++ acts') stm' := by
  obtain ⟨done, now', heq, hgood, htracks⟩ := h
  obtain ⟨done', now'', heq', hgood', htracks'⟩ := h' now' htracks
  refine ⟨done ++ done', now'', ?_, ?_, htracks'⟩
  · rw [← List.append_assoc, heq, List.append_assoc, heq', List.flatMap_append, List.append_assoc]
  · intro e he
    rcases List.mem_append.mp he with he | he
    · exact hgood e he
    · exact hgood' e he

/-- A reset ends the stretch. -/
theorem Tracks.reset (h : Tracks now stm) (b : Bool) : Leads now [.reset] (stm.reset b) := by
  refine ⟨[⟨now, none⟩], .idle, by simp [Ended.log, Stretch.idle, Stretch.log], ?_, ?_⟩
  · intro e he
    rw [List.mem_singleton.mp he]
    exact ⟨h.good, by simp⟩
  · cases b <;> exact .idle rfl rfl rfl

/-- So does going back to the origin. -/
theorem Tracks.back (h : Tracks now stm) {i : Int} (ho : stm.origin = some i) (b : Bool) :
    Leads now [.reset, .focus i] (stm.reset b) := by
  refine ⟨[⟨now, some i⟩], .idle, by simp [Ended.log, Stretch.idle, Stretch.log], ?_, ?_⟩
  · intro e he
    rw [List.mem_singleton.mp he]
    refine ⟨h.good, fun j hj => ?_⟩
    cases h with
    | idle _ _ hnone => simp [ho] at hnone
    | running => exact ho.trans hj
  · cases b <;> exact .idle rfl rfl rfl

/-- A request for a window that was not visited continues the sequence. -/
theorem Tracks.request (h : Tracks now stm) (hv : stm.visited ≠ []) {i : Int}
    (hi : i ∉ stm.visited) : Leads now [.focus i] (stm.push i) := by
  cases h with
  | idle hnil _ _ => exact absurd hnil hv
  | @running ids _ _ hnodup hids horigin =>
      refine ⟨[], ⟨some (stm.origin, stm.lru), ids ++ [i]⟩, by simp [Stretch.log], by simp, ?_⟩
      refine .running (stm.push i) (by simp [push]) ?_ ?_ ?_
      · rw [← List.concat_eq_append]
        exact hnodup.concat fun hmem => hi (hids i hmem)
      · intro j hj
        rcases List.mem_append.mp hj with hj | hj
        · exact List.mem_append_left _ (hids j hj)
        · exact List.mem_append_right _ hj
      · intro j hj
        obtain ⟨hvis, hnot, hlru⟩ := horigin j hj
        refine ⟨List.mem_append_left _ hvis, ?_, hlru⟩
        simp only [List.mem_append, List.mem_singleton, not_or]
        exact ⟨hnot, fun hji => hi (hji ▸ hvis)⟩

theorem Tracks.push (h : Tracks now stm) (hv : stm.visited ≠ []) (i : Int) :
    Tracks now (stm.push i) := by
  cases h with
  | idle hnil _ _ => exact absurd hnil hv
  | running _ _ hnodup hids horigin =>
      refine .running (stm.push i) (by simp [SwitchToMatchingData.push]) hnodup ?_ ?_
      · exact fun j hj => List.mem_append_left _ (hids j hj)
      · exact fun j hj => ⟨List.mem_append_left _ (horigin j hj).1, (horigin j hj).2⟩

/-- The invariant does not look at the flags. -/
theorem Tracks.setFlags (h : Tracks now stm) (u l o : Bool) :
    Tracks now (stm.setFlags u l o) := by
  cases h with
  | idle hv hl ho => exact .idle hv hl ho
  | running _ hv hnodup hids horigin =>
      exact .running (stm.setFlags u l o) hv hnodup hids horigin

/-! ## One call -/

section call

variable {wins : List DisplayNode} {ticks : TickMap}

/-- The window recorded as last recently used is not the focused one. -/
theorem initSequence_lru_ne_origin (stm : SwitchToMatchingData)
    (hnodup : (wins.map (·.node.id)).Nodup)
    {f : DisplayNode} (hf : wins.find? (·.node.focused) = some f) :
    (stm.initSequence wins ticks).lru ≠ some f.node.id := by
  intro hlru
  obtain ⟨m, hm, hunfocused, hid, -⟩ := initSequence_lru_some hlru
  have hsame : m = f := List.inj_on_of_nodup_map hnodup hm (List.mem_of_find?_eq_some hf) hid
  have hfocused := List.find?_some hf
  rw [← hsame, hunfocused] at hfocused
  simp at hfocused

/-- The first call of a sequence records the windows to begin with. -/
theorem Tracks.enter (h : Tracks now stm) (hnodup : (wins.map (·.node.id)).Nodup) :
    Leads now (stm.initActions wins ticks) (stm.enter wins ticks) := by
  by_cases hv : stm.visited = []
  · cases h with
    | running _ hne _ _ _ => exact absurd hv hne
    | idle _ _ ho =>
        refine ⟨[], ⟨some ((stm.initSequence wins ticks).origin,
          (stm.initSequence wins ticks).lru), []⟩, ?_, by simp, ?_⟩
        · simp [initActions, hv, Stretch.log, Stretch.idle]
        · have henter : stm.enter wins ticks =
              (stm.initSequence wins ticks).push (focusedId wins) := by
            simp [SwitchToMatchingData.enter, hv]
          rw [henter]
          refine .running ((stm.initSequence wins ticks).push (focusedId wins))
            (by simp [SwitchToMatchingData.push]) List.nodup_nil (by simp) ?_
          intro i hi
          -- The origin is the focused window, which the call marks as visited.
          cases hf : wins.find? (·.node.focused) with
          | none => simp [SwitchToMatchingData.push, initSequence, hf, ho] at hi
          | some f =>
              obtain rfl : f.node.id = i := by
                simpa [SwitchToMatchingData.push, initSequence, hf] using hi
              refine ⟨?_, List.not_mem_nil, initSequence_lru_ne_origin stm hnodup hf⟩
              simp [SwitchToMatchingData.push, focusedId, hf]
  · have hne : stm.visited.isEmpty = false := by simpa using hv
    simp only [initActions, SwitchToMatchingData.enter, hne, Bool.false_eq_true, if_false]
    exact (h.push hv _).leads

/-- **One call keeps the invariant.** -/
theorem call_leads (hnodup : (wins.map (·.node.id)).Nodup) (ticks : TickMap)
    (pred : DisplayNode → Bool) (h : Tracks now stm) :
    Leads now (focusUrgentOrMatchingOrLruWindow wins ticks pred stm).2
      (focusUrgentOrMatchingOrLruWindow wins ticks pred stm).1 := by
  -- A next target, a window by LRU, the way back, the reset alone, and the reset followed by
  -- a second attempt.
  fun_induction focusUrgentOrMatchingOrLruWindow wins ticks pred stm generalizing now with
  | case1 stm entered log w =>
      rename_i hw
      refine (h.enter hnodup).append fun _ h' => ?_
      exact h'.request (stm.enter_visited_ne_nil wins ticks) (nextTarget_not_visited hw)
  | case2 stm entered log _ id =>
      rename_i hid
      refine (h.enter hnodup).append fun _ h' => ?_
      exact h'.request (stm.enter_visited_ne_nil wins ticks) (lruTarget_spec hid).2.2
  | case3 stm entered log _ _ id =>
      rename_i hid
      exact (h.enter hnodup).append fun _ h' => h'.back (originTarget_eq hid) false
  | case4 => exact (h.enter hnodup).append fun _ h' => h'.reset false
  | case5 stm entered log _ _ _ _ stm' acts hcall =>
      rename_i ih
      refine (h.enter hnodup).append fun _ h' => ?_
      rw [hcall] at ih
      exact (h'.reset false).append fun _ h'' => ih h''

end call

/-! ## One command -/

section command

variable {E : RegexEngine} {ρ : Type} {others : SwayrCommand → World → List ρ}

/-- Each command that switches, in each of its branches. -/
theorem runSwitch_leads {w : World} {cmd : SwayrCommand}
    (hrun : runSwitch E w cmd stm = some (stm', acts)) (h : Tracks now stm) :
    Leads now acts stm' := by
  rcases runSwitch_cases E hrun with heq | ⟨u, l, o, heq | ⟨pred, heq⟩⟩
  · obtain ⟨rfl, rfl⟩ := Prod.mk.inj heq
    exact h.leads
  · obtain ⟨rfl, rfl⟩ := Prod.mk.inj heq
    exact (h.setFlags u l o).leads
  · have hcall := call_leads w.wins_ids_nodup w.ticks pred (h.setFlags u l o)
    rwa [← heq] at hcall

/-- A new command resets what another one has left. -/
theorem startData_leads {s : CmdState} (h : Tracks now s.stm) (cmd : SwayrCommand) :
    Leads now (s.startActions cmd) (s.startData cmd) := by
  unfold CmdState.startActions CmdState.startData
  split
  · exact h.reset true
  · exact h.leads

/-- The switch data a command leaves behind; one that never returns has only
reset them. -/
def dataAfter (E : RegexEngine) (w : World) (cmd : SwayrCommand) (s : CmdState) :
    SwitchToMatchingData :=
  match runSwitch E w cmd (s.startData cmd) with
  | none => s.startData cmd
  | some (stm, _) => stm

theorem stm_of_exec {s s' : CmdState} {w : World} {cmd : SwayrCommand}
    (h : (execSwayrCmd E others w cmd s).1 = some s') : s'.stm = dataAfter E w cmd s := by
  unfold dataAfter
  cases hrun : runSwitch E w cmd (s.startData cmd) with
  | none => simp [(switchActions_of_blocks hrun).1] at h
  | some r =>
      rw [(switchActions_of_returns hrun).1] at h
      rw [← Option.some.inj h]

/-- **One command keeps the invariant.** -/
theorem exec_leads {s : CmdState} (h : Tracks now s.stm) (w : World) (cmd : SwayrCommand) :
    Leads now (switchActions (execSwayrCmd E others w cmd s).2) (dataAfter E w cmd s) := by
  unfold dataAfter
  cases hrun : runSwitch E w cmd (s.startData cmd) with
  | none =>
      rw [(switchActions_of_blocks hrun).2]
      exact startData_leads h cmd
  | some r =>
      rw [(switchActions_of_returns hrun).2]
      exact (startData_leads h cmd).append fun _ h' => runSwitch_leads hrun h'

end command

/-! ## Whole runs -/

section run

variable (E : RegexEngine) {ρ : Type} (others : SwayrCommand → World → List ρ)

/-- The switch actions of a run from the daemon's initial state. -/
def runActions (inputs : List (SwayrCommand × World)) : List Action :=
  switchActions ((executor E others).outputs (some .init) inputs)

/-- By induction on the commands. -/
theorem run_leads (inputs : List (SwayrCommand × World)) :
    ∃ stm', Leads .idle (runActions E others inputs) stm' ∧
      ∀ s, (executor E others).run (some .init) inputs = some s → s.stm = stm' := by
  refine (executor E others).history
    (P := fun _ s os => ∃ stm', Leads .idle (switchActions os) stm' ∧
      ∀ s', s = some s' → s'.stm = stm') ?_ ?_ inputs
  · refine ⟨.new, Tracks.leads (.idle rfl rfl rfl), ?_⟩
    rintro s' hs'
    rw [← Option.some.inj hs']
    rfl
  · rintro xs s os ⟨cmd, w⟩ ⟨stm, hleads, hstate⟩
    -- After a command that blocks nothing more is emitted.
    cases s with
    | none =>
        refine ⟨stm, ?_, by simp [Kit.Transducer.next, executor]⟩
        simpa [Kit.Transducer.emit, executor] using hleads
    | some s =>
        obtain rfl := hstate s rfl
        refine ⟨dataAfter E w cmd s, ?_, fun s' => stm_of_exec⟩
        rw [switchActions_append]
        exact hleads.append fun _ h => exec_leads h w cmd

/-- A command that has returned is the last command. -/
theorem lastCommand_run {xs : List (SwayrCommand × World)} {prev : SwayrCommand} {w : World}
    {s : CmdState} (h : (executor E others).run (some .init) (xs ++ [(prev, w)]) = some s) :
    s.lastCommand = prev := by
  rw [Kit.Transducer.run_append] at h
  cases hs : (executor E others).run (some .init) xs with
  | none =>
      rw [hs] at h
      simp [Kit.Transducer.next, executor] at h
  | some s₀ =>
      rw [hs] at h
      change (execSwayrCmd E others w prev s₀).1 = some s at h
      cases hrun : runSwitch E w prev (s₀.startData prev) with
      | none => simp [(switchActions_of_blocks hrun).1] at h
      | some r =>
          rw [(switchActions_of_returns hrun).1] at h
          rw [← Option.some.inj h]

/-- A command that differs from the last one resets the switch data first, and
what they were before makes no difference. -/
theorem exec_of_ne {s : CmdState} {cmd : SwayrCommand} (h : cmd ≠ s.lastCommand) (w : World) :
    s.startData cmd = .new ∧ (execSwayrCmd E others w cmd s).2.head? = some (.switch .reset) ∧
      execSwayrCmd E others w cmd s = execSwayrCmd E others w cmd ⟨s.lastCommand, .new⟩ := by
  have hstart : s.startData cmd = .new := by simp [CmdState.startData, h, reset_true]
  have hacts : s.startActions cmd = [.reset] := by simp [CmdState.startActions, h]
  have hsame : CmdState.startData ⟨s.lastCommand, .new⟩ cmd = .new := by
    simp [CmdState.startData, h, reset_true]
  refine ⟨hstart, ?_, ?_⟩
  · cases hrun : runSwitch E w cmd (s.startData cmd) <;> simp [execSwayrCmd, hrun, hacts]
  · unfold execSwayrCmd
    rw [hstart, hsame]
    rfl

/-- **No window twice in a sequence.** The switch actions of any run, over any
commands and worlds, split at the resets into stretches in which no window is
requested twice and the origin is requested by the request that ends the
sequence only; and every command that differs from the one before it begins
with a reset and behaves as on the switch data the daemon starts with. -/
theorem no_window_twice (inputs : List (SwayrCommand × World)) :
    (∃ (done : List Ended) (now : Stretch),
      runActions E others inputs = done.flatMap Ended.log ++ now.log ∧
        (∀ e ∈ done, e.Good ∧ (e.requests ++ e.back.toList).Nodup) ∧ now.Good) ∧
    ∀ s, (executor E others).run (some .init) inputs = some s →
      (∀ xs prev w, inputs = xs ++ [(prev, w)] → s.lastCommand = prev) ∧
      ∀ cmd, cmd ≠ s.lastCommand → ∀ w,
        s.startData cmd = .new ∧
        (execSwayrCmd E others w cmd s).2.head? = some (.switch .reset) ∧
        execSwayrCmd E others w cmd s = execSwayrCmd E others w cmd ⟨s.lastCommand, .new⟩ := by
  refine ⟨?_, fun s hs => ⟨?_, fun cmd hne w => exec_of_ne E others hne w⟩⟩
  · obtain ⟨stm, ⟨done, now, heq, hgood, htracks⟩, -⟩ := run_leads E others inputs
    refine ⟨done, now, heq, fun e he => ⟨hgood e he, ?_⟩, htracks.good⟩
    have he := hgood e he
    refine List.nodup_append.mpr ⟨he.distinct, by cases e.back <;> simp, ?_⟩
    rintro a ha b hb rfl
    exact he.origin_not_mem a (he.back_eq a (Option.mem_toList.mp hb)) ha
  · rintro xs prev w rfl
    exact lastCommand_run E others hs

end run

/-- Two windows on a workspace, `4` or else `5` being focused. -/
def twoWindows (first : Bool) : World where
  swayRoot :=
    let win (id : Int) (focused : Bool) : Ipc.Node :=
      .mk ⟨{ id, nodeType := .con, pid := some 200, focused }, rfl⟩ [] []
    .mk ⟨{ id := 400, nodeType := .root }, rfl⟩
      [.mk ⟨{ id := 200, nodeType := .output }, rfl⟩
        [.mk ⟨{ id := 300, nodeType := .workspace }, rfl⟩ [win 4 first, win 5 !first] []] []] []
  distinct := by cases first <;> decide
  ticks := .empty
  answer := none

-- To the last recently used window, back to the origin, and on again; the fourth
-- command cuts the second sequence short.
example : runActions ⟨fun _ => true, fun _ _ => true, rfl⟩ (fun _ _ => ([] : List Unit))
    [(.switchToUrgentOrLRUWindow false false false, twoWindows true),
      (.switchToUrgentOrLRUWindow false false false, twoWindows false),
      (.switchToUrgentOrLRUWindow false false false, twoWindows true),
      (.nop, twoWindows false)] =
    [.reset, .initialized (some 4) (some 5), .focus 5, .reset, .focus 4,
      .initialized (some 4) (some 5), .focus 5, .reset] := by decide +kernel

end Swayr.Theorems.NoWindowTwice
