import Swayr.Focus.InFlight

/-!
# The order a run of cycling commands reads

A cycling command sends its inhibit and reads the ticks at once, without
waiting for the lock-in thread to see the message. What the later commands of
the run read is therefore decided at the first read, by the lock-ins that are
still on their way past the inhibit.
-/

namespace Swayr.Theorems.FrozenOrder

open Kit Swayr.Focus

/-- The latest request along a schedule is a cycling command: a run of cycling
commands is going on. -/
def Cycling (as : List Label) : Prop :=
  ∃ before during, as = before ++ .request true :: during ∧ .request false ∉ during

/-- Along the schedule `bs` from `s` the id is neither opened nor closed. -/
def Stays (s : System) (bs : List Label) (id : Int) : Prop :=
  ∀ now, now <+: bs → ∀ t, (focusSystem true).run s now = some t →
    (t.ticks id).isSome = (s.ticks id).isSome

/-- The lock-ins on their way: the writes the lock-in thread is about to make
and those the messages in the channel will lead to. -/
def coming (s : System) : List FocusEvent :=
  s.writes ++ (focusLockInHandler true).outputs s.lockIn (s.chan.map Recv.msg)

/-- No lock-in on its way concerns a node of the map. -/
def Settled (s : System) : Prop :=
  ∀ fev ∈ coming s, s.ticks fev.nodeId = none

/-- The handler's state once it has read the channel. -/
def afterChan (s : System) : LockIn :=
  (focusLockInHandler true).run s.lockIn (s.chan.map Recv.msg)

/-- A run of cycling commands is going on: having read the channel, the
handler is frozen. -/
structure Freezing (s : System) : Prop where
  ordered : s.Ordered
  no_activate : .chanSend .tickUpdateActivate ∉ s.todo
  frozen : (afterChan s).Frozen

/-! ## One step -/

/-- The monitor sends focus events and nothing else. -/
theorem no_activate_handled {n n' : Nat} {ev : SwayEvent} {ops : List MonitorOp}
    (h : monitorEvent n ev = (n', .handled ops)) :
    .chanSend .tickUpdateActivate ∉ ops := by
  cases ev with
  | window change container =>
      simp only [monitorEvent, Prod.mk.injEq, Monitored.handled.injEq] at h
      obtain ⟨-, rfl⟩ := h
      cases change <;> simp [handleWindowEvent, send]
  | workspace change current =>
      cases current <;> cases change <;>
        simp [monitorEvent, handleWorkspaceEvent, send] at h <;>
        obtain ⟨-, rfl⟩ := h <;> simp
  | shutdown => simp [monitorEvent] at h
  | other =>
      simp [monitorEvent] at h
      obtain ⟨-, rfl⟩ := h
      simp

/-- The monitor never has an activation to send. -/
theorem no_activate_step {s s' : System} {a : Label}
    (h : .chanSend .tickUpdateActivate ∉ s.todo) (hstep : s.Steps true a s') :
    .chanSend .tickUpdateActivate ∉ s'.todo := by
  cases hstep with
  | handled htodo heq => exact no_activate_handled heq
  | monitor htodo => exact fun hmem => h (htodo ▸ List.mem_cons_of_mem _ hmem)
  | ended htodo heq => exact h
  | request cycling => exact h
  | recv hwrites hchan => exact h
  | timeout hwrites hchan => exact h
  | write hwrites => exact h

theorem afterChan_inv {s : System} (h : s.Ordered) : (afterChan s).Inv :=
  (focusLockInHandler true).invariant (fun _ _ hinv => hinv.next) h.lockIn_inv _

/-- A message at the back of the channel is read last. -/
theorem afterChan_append {s s' : System} {m : FocusMessage} (hlockIn : s'.lockIn = s.lockIn)
    (hchan : s'.chan = s.chan ++ [m]) :
    afterChan s' = (focusLockInHandler true).next (afterChan s) (.msg m) := by
  simp [afterChan, hlockIn, hchan, Transducer.run_append]

/-- One more message on the channel is one more that the handler will see. -/
theorem coming_append {s s' : System} {m : FocusMessage} (hwrites : s'.writes = s.writes)
    (hlockIn : s'.lockIn = s.lockIn) (hchan : s'.chan = s.chan ++ [m]) :
    coming s' = coming s ++ (focusLockInHandler true).emit (afterChan s) (.msg m) := by
  simp [coming, afterChan, hwrites, hlockIn, hchan, Transducer.outputs_append]

/-- While the run goes on no step adds a lock-in to those on their way. -/
theorem Freezing.step {s s' : System} {a : Label} (h : Freezing s) (ha : a ≠ .request false)
    (hstep : s.Steps true a s') : Freezing s' ∧ coming s' ⊆ coming s := by
  have hordered := h.ordered.step hstep
  have hactivate := no_activate_step h.no_activate hstep
  -- a message other than an activate leaves the frozen handler frozen and silent
  have hsend : ∀ m, m ≠ .tickUpdateActivate → s'.writes = s.writes → s'.lockIn = s.lockIn →
      s'.chan = s.chan ++ [m] → Freezing s' ∧ coming s' ⊆ coming s := by
    intro m hm hwrites hlockIn hchan
    obtain ⟨hemit, hnext⟩ := Frozen.next (afterChan_inv h.ordered) h.frozen
      (r := .msg m) (by simpa using hm)
    refine ⟨⟨hordered, hactivate, afterChan_append hlockIn hchan ▸ hnext⟩, ?_⟩
    rw [coming_append hwrites hlockIn hchan, hemit, List.append_nil]
    exact List.Subset.refl _
  cases hstep with
  | handled htodo heq => exact ⟨⟨hordered, hactivate, h.frozen⟩, List.Subset.refl _⟩
  | ended htodo heq => exact ⟨⟨hordered, hactivate, h.frozen⟩, List.Subset.refl _⟩
  | @monitor op rest htodo =>
      cases op with
      | chanSend fmsg =>
          refine hsend fmsg ?_ rfl rfl rfl
          rintro rfl
          exact h.no_activate (htodo ▸ List.mem_cons_self)
      | maybeAutoTile => exact ⟨⟨hordered, hactivate, h.frozen⟩, List.Subset.refl _⟩
      | ensureId id => exact ⟨⟨hordered, hactivate, h.frozen⟩, List.Subset.refl _⟩
      | removeFocusData id => exact ⟨⟨hordered, hactivate, h.frozen⟩, List.Subset.refl _⟩
  | request cycling =>
      cases cycling with
      | false => exact absurd rfl ha
      | true => exact hsend .tickUpdateInhibit (by simp) rfl rfl rfl
  | recv hwrites hchan =>
      refine ⟨⟨hordered, hactivate, ?_⟩, ?_⟩
      · simpa [afterChan, hchan, System.receive] using h.frozen
      · simp [coming, hwrites, hchan, System.receive]
  | timeout hwrites hchan =>
      have hfrozen : s.lockIn.Frozen := by simpa [afterChan, hchan] using h.frozen
      obtain ⟨hemit, hnext⟩ := Frozen.next h.ordered.lockIn_inv hfrozen
        (r := .timeout) (by simp)
      refine ⟨⟨hordered, hactivate, hnext⟩, ?_⟩
      simp [coming, System.receive, hemit]
  | write hwrites =>
      refine ⟨⟨hordered, hactivate, h.frozen⟩, ?_⟩
      simp [coming, hwrites]

/-- A tick that no lock-in on its way concerns changes only when its node is
opened or closed. -/
theorem tick_step {s s' : System} {a : Label} {id : Int}
    (hcoming : ∀ fev ∈ coming s, fev.nodeId ≠ id) (hstep : s.Steps true a s')
    (hbefore : (s.ticks id).isSome) (hafter : (s'.ticks id).isSome) :
    s'.ticks id = s.ticks id := by
  -- Ticks are written by the lock-in, of which none is coming for `id`; of the monitor's
  -- operations only those on the map touch it.
  cases hstep with
  | @monitor op rest htodo =>
      cases op with
      | ensureId j =>
          obtain ⟨t, ht⟩ := Option.isSome_iff_exists.mp hbefore
          show s.ticks.ensureId j id = s.ticks id
          rw [TickMap.ensureId_apply]
          split
          · rename_i hid
            simp [← hid, ht]
          · rfl
      | removeFocusData j =>
          have hj : j ≠ id := by
            rintro rfl
            simp [System.perform, MonitorOp.onTicks] at hafter
          show s.ticks.removeFocusData j id = s.ticks id
          rw [TickMap.removeFocusData_apply, if_neg (Ne.symm hj)]
      | maybeAutoTile => rfl
      | chanSend fmsg => rfl
  | @write fev rest hwrites =>
      have hid : fev.nodeId ≠ id := hcoming fev (by simp [coming, hwrites])
      show s.ticks.lockIn fev id = s.ticks id
      rw [TickMap.lockIn, TickMap.updateLastFocusTick_apply, if_neg (Ne.symm hid)]
  | handled htodo heq => rfl
  | ended htodo heq => rfl
  | request cycling => rfl
  | recv hwrites hchan => rfl
  | timeout hwrites hchan => rfl

/-- Only the monitor opens and closes nodes. -/
theorem keys_step {s s' : System} {a : Label} (ha : a ≠ .monitor)
    (hstep : s.Steps true a s') (id : Int) : (s'.ticks id).isSome = (s.ticks id).isSome := by
  cases hstep with
  | monitor htodo => exact absurd rfl ha
  | write hwrites => exact TickMap.lockIn_isSome _ _ _
  | handled htodo heq => rfl
  | ended htodo heq => rfl
  | request cycling => rfl
  | recv hwrites hchan => rfl
  | timeout hwrites hchan => rfl

/-! ## Whole runs -/

/-- Once a cycling request has been made, the handler is frozen by the time it
has read the channel, until the next request that is not cycling. -/
theorem freezing_of_cycling {as : List Label} {s : System}
    (hrun : (focusSystem true).run .start as = some s) (hcyc : Cycling as) : Freezing s := by
  have hinv : s.Ordered ∧ .chanSend .tickUpdateActivate ∉ s.todo ∧ (Cycling as → Freezing s) := by
    refine (focusSystem true).history
      (P := fun as s => s.Ordered ∧ .chanSend .tickUpdateActivate ∉ s.todo ∧
        (Cycling as → Freezing s)) ⟨.start, by simp [System.start], ?_⟩ ?_ as s hrun
    · rintro ⟨before, during, heq, -⟩
      simp at heq
    rintro as s a s' ⟨hordered, hactivate, hfreezing⟩ hstep
    have hsteps := System.Steps.of_step hstep
    have hordered' := hordered.step hsteps
    have hactivate' := no_activate_step hactivate hsteps
    refine ⟨hordered', hactivate', ?_⟩
    rintro ⟨before, during, heq, hduring⟩
    rcases append_singleton_eq_append_cons heq with ⟨rfl, rfl, rfl⟩ | ⟨front, rfl, rfl⟩
    · -- the step is the cycling request itself
      cases hsteps with
      | request cycling =>
          refine ⟨hordered', hactivate', ?_⟩
          have hread : afterChan { s with chan := s.chan ++ [.tickUpdateInhibit] } =
              (focusLockInHandler true).next (afterChan s) (.msg .tickUpdateInhibit) :=
            afterChan_append rfl rfl
          exact hread ▸ step_inhibit.2
    · simp only [List.mem_append, List.mem_singleton, not_or] at hduring
      exact (Freezing.step (hfreezing ⟨before, front, rfl, hduring.1⟩) (Ne.symm hduring.2)
        hsteps).1
  exact hinv.2.2 hcyc

theorem Stays.cons {s s₁ : System} {a : Label} {bs : List Label} {id : Int}
    (h : Stays s (a :: bs) id) (hstep : (focusSystem true).step s a = some s₁) :
    (s₁.ticks id).isSome = (s.ticks id).isSome ∧ Stays s₁ bs id := by
  have hrun : ∀ now t, (focusSystem true).run s₁ now = some t →
      (focusSystem true).run s (a :: now) = some t := by
    intro now t ht
    rw [Guarded.run, hstep]
    exact ht
  have hfirst : (s₁.ticks id).isSome = (s.ticks id).isSome :=
    h [a] (by simp) s₁ (hrun [] s₁ rfl)
  refine ⟨hfirst, fun now hnow t ht => ?_⟩
  rw [hfirst]
  exact h (a :: now) (by simpa using hnow) t (hrun now t ht)

/-- While the run goes on, ticks that no lock-in on its way concerns stay as
they are. -/
theorem tick_run {bs : List Label} {s s' : System} {id : Int} (h : Freezing s)
    (hcoming : ∀ fev ∈ coming s, fev.nodeId ≠ id) (hbs : .request false ∉ bs)
    (hrun : (focusSystem true).run s bs = some s') (hstays : Stays s bs id)
    (hid : (s.ticks id).isSome) : s'.ticks id = s.ticks id := by
  induction bs generalizing s with
  | nil => rw [← Option.some.inj hrun]
  | cons a rest ih =>
      obtain ⟨s₁, hstep, hrest⟩ := Option.bind_eq_some_iff.mp hrun
      have hsteps := System.Steps.of_step hstep
      obtain ⟨hkeys, hstays₁⟩ := hstays.cons hstep
      simp only [List.mem_cons, not_or] at hbs
      obtain ⟨h₁, hsub⟩ := h.step (Ne.symm hbs.1) hsteps
      have hid₁ : (s₁.ticks id).isSome := hkeys ▸ hid
      calc s'.ticks id = s₁.ticks id :=
            ih h₁ (fun fev hfev => hcoming fev (hsub hfev)) hbs.2 hrest hstays₁ hid₁
        _ = s.ticks id := tick_step hcoming hsteps hid hid₁

/-- Without a step of the monitor every id stays. -/
theorem stays_of_no_monitor {bs : List Label} (hbs : .monitor ∉ bs) (s : System) (id : Int) :
    Stays s bs id := by
  rintro now ⟨later, rfl⟩ t ht
  simp only [List.mem_append, not_or] at hbs
  replace hbs := hbs.1
  induction now generalizing s with
  | nil => rw [← Option.some.inj ht]
  | cons a rest ih =>
      obtain ⟨s₁, hstep, hrest⟩ := Option.bind_eq_some_iff.mp ht
      simp only [List.mem_cons, not_or] at hbs
      rw [ih s₁ hrest hbs.2, keys_step (Ne.symm hbs.1) (System.Steps.of_step hstep)]

/-! ## The lock-in thread on its own -/

/-- The lock-in thread carries out all lock-ins on their way if the other
threads leave it alone. -/
theorem exists_drain (chan : List FocusMessage) (writes : List FocusEvent) (s : System)
    (hchan : s.chan = chan) (hwrites : s.writes = writes) :
    ∃ bs s', (∀ a ∈ bs, a = .write ∨ a = .recv) ∧ (focusSystem true).run s bs = some s' ∧
      s'.ticks = (coming s).foldl TickMap.lockIn s.ticks := by
  -- What is to be written goes first, then the next message is received.
  induction chan generalizing writes s with
  | nil =>
      induction writes generalizing s with
      | nil => exact ⟨[], s, by simp, rfl, by simp [coming, hchan, hwrites]⟩
      | cons fev rest ih =>
          obtain ⟨bs, s', hbs, hrun, hticks⟩ :=
            ih { s with ticks := s.ticks.lockIn fev, writes := rest } hchan rfl
          refine ⟨.write :: bs, s', by simpa using hbs, ?_, ?_⟩
          · simpa [Guarded.run, focusSystem, hwrites] using hrun
          · simpa [coming, hwrites] using hticks
  | cons m later ihc =>
      induction writes generalizing s with
      | nil =>
          obtain ⟨bs, s', hbs, hrun, hticks⟩ :=
            ihc _ (s.receive true later (.msg m)) rfl rfl
          refine ⟨.recv :: bs, s', by simpa using hbs, ?_, ?_⟩
          · simpa [Guarded.run, focusSystem, hwrites, hchan] using hrun
          · simpa [coming, hwrites, hchan, System.receive] using hticks
      | cons fev rest ih =>
          obtain ⟨bs, s', hbs, hrun, hticks⟩ :=
            ih { s with ticks := s.ticks.lockIn fev, writes := rest } hchan rfl
          refine ⟨.write :: bs, s', by simpa using hbs, ?_, ?_⟩
          · simpa [Guarded.run, focusSystem, hwrites] using hrun
          · simpa [coming, hwrites] using hticks

/-- Lock-ins that concern a node of the map leave it with the counter of one
of them. -/
theorem lastFocusTick_foldl {es : List FocusEvent} {m : TickMap} {id : Int}
    (hid : (m id).isSome) (hes : ∃ fev ∈ es, fev.nodeId = id) :
    ∃ fev ∈ es, (es.foldl TickMap.lockIn m).lastFocusTick id = fev.evFocusCtr := by
  induction es using List.reverseRecOn with
  | nil => simp at hes
  | append_singleton es e ih =>
      have hkey : (es.foldl TickMap.lockIn m id).isSome := by
        clear ih hes
        induction es generalizing m with
        | nil => exact hid
        | cons d rest ih => exact ih (by simpa using hid)
      rw [List.foldl_append, List.foldl_cons, List.foldl_nil]
      by_cases he : e.nodeId = id
      · -- The last event is one of `id`, and its counter is the tick.
        obtain ⟨t, ht⟩ := Option.isSome_iff_exists.mp hkey
        refine ⟨e, by simp, ?_⟩
        rw [TickMap.lastFocusTick, TickMap.lockIn, TickMap.updateLastFocusTick_apply,
          if_pos he.symm, he, ht]
        rfl
      · obtain ⟨fev, hfev, hnode⟩ := hes
        have hfev : fev ∈ es := by
          rcases List.mem_append.mp hfev with h | h
          · exact h
          · exact absurd (List.mem_singleton.mp h ▸ hnode) he
        obtain ⟨d, hd, htick⟩ := ih ⟨fev, hfev, hnode⟩
        refine ⟨d, List.mem_append_left _ hd, ?_⟩
        rw [← htick, TickMap.lastFocusTick, TickMap.lockIn, TickMap.updateLastFocusTick_apply,
          if_neg (Ne.symm he)]
        rfl

/-- What is to be written is on its way. -/
theorem coming_subset_inFlight {s : System} (h : s.Ordered) : coming s ⊆ s.inFlight := by
  have hsub := ((List.sublist_append_left _ _).trans
    (outputs_sublist true (s.chan.map Recv.msg) h.lockIn_inv)).subset
  have hevents : focusEvents (s.chan.map Recv.msg) = s.chan.filterMap FocusMessage.event? := by
    rw [focusEvents, List.filterMap_map]
    rfl
  rw [hevents] at hsub
  intro fev hfev
  rcases List.mem_append.mp hfev with hw | hout
  · exact List.mem_append_left _ hw
  · rcases List.mem_append.mp (hsub hout) with hl | hc
    · exact List.mem_append_right _ (List.mem_append_left _ hl)
    · exact List.mem_append_right _ (List.mem_append_right _ (List.mem_append_left _ hc))

/-- **What a run of cycling commands reads.** Take any interleaving that has
brought the daemon to a state in which a command of the run reads the ticks.
The commands of the run read the same tick from then on, for every id that is
neither opened nor closed meanwhile, exactly if no lock-in for a node of the
map was still on its way at that read. -/
theorem frozen_order_iff {as : List Label} {s : System}
    (hrun : (focusSystem true).run .start as = some s) (hcyc : Cycling as) :
    (∀ bs s', .request false ∉ bs → (focusSystem true).run s bs = some s' →
      ∀ id, Stays s bs id → s'.ticks.lastFocusTick id = s.ticks.lastFocusTick id) ↔
    Settled s := by
  have hfreezing := freezing_of_cycling hrun hcyc
  constructor
  · intro hsame fev hfev
    by_contra hpresent
    have hid : (s.ticks fev.nodeId).isSome := Option.isSome_iff_ne_none.mpr hpresent
    -- let the lock-in thread run: it overwrites the tick the command has read
    obtain ⟨bs, s', hbs, hdrain, hticks⟩ := exists_drain s.chan s.writes s rfl rfl
    have hmonitor : .monitor ∉ bs := fun hmem => by simpa using hbs _ hmem
    have hrequest : .request false ∉ bs := fun hmem => by simpa using hbs _ hmem
    have hread := hsame bs s' hrequest hdrain fev.nodeId (stays_of_no_monitor hmonitor s _)
    obtain ⟨late, hlate, htick⟩ := lastFocusTick_foldl hid ⟨fev, hfev, rfl⟩
    have hnewer := hfreezing.ordered.newer late
      (coming_subset_inFlight hfreezing.ordered hlate) fev.nodeId
    rw [hticks, htick] at hread
    omega
  · intro hsettled bs s' hbs hrun' id hstays
    cases hid : s.ticks id with
    | some t =>
        have hcoming : ∀ fev ∈ coming s, fev.nodeId ≠ id := by
          rintro fev hfev rfl
          rw [hsettled fev hfev] at hid
          simp at hid
        have hsame := tick_run hfreezing hcoming hbs hrun' hstays (by simp [hid])
        rw [TickMap.lastFocusTick, TickMap.lastFocusTick, hsame]
    | none =>
        -- an id that is not in the map reads as 0 throughout
        have hnone : s'.ticks id = none := by
          simpa [hid] using hstays bs (List.prefix_refl bs) s' hrun'
        rw [TickMap.lastFocusTick, TickMap.lastFocusTick, hnone, hid]

/-- Window 7 is opened and focused, and its focus event waits to be locked in. -/
def focused : List Label :=
  [.handle (.window .new 7), .monitor, .monitor,
    .handle (.window .focus 7), .monitor, .monitor, .monitor, .recv]

/-- The lock-in is written before the first cycling command: the order is
frozen. -/
theorem frozen_order_iff_written :
    ∃ s, (focusSystem true).run .start (focused ++ [.timeout, .write, .request true]) = some s ∧
      s.ticks.lastFocusTick 7 = 2 ∧
      ∀ bs s', .request false ∉ bs → (focusSystem true).run s bs = some s' →
        Stays s bs 7 → s'.ticks.lastFocusTick 7 = 2 := by
  refine ⟨_, rfl, rfl, fun bs s' hbs hrun hstays => ?_⟩
  refine (@frozen_order_iff (focused ++ [.timeout, .write, .request true]) _ rfl
    ⟨focused ++ [.timeout, .write], [], rfl, by simp⟩).mpr ?_ bs s' hbs hrun 7 hstays
  intro fev hfev
  have hnone : fev ∈ ([] : List FocusEvent) := hfev
  simp at hnone

/-- The lock-in's wait has run out when the first cycling command reads tick
0 of window 7. The write comes after this read, and the second command of the
run reads tick 2. -/
theorem write_between_reads :
    ∃ s s', (focusSystem true).run .start (focused ++ [.timeout, .request true]) = some s ∧
      Cycling (focused ++ [.timeout, .request true]) ∧
      (focusSystem true).run s [.write, .request true] = some s' ∧
      Stays s [.write, .request true] 7 ∧
      s.ticks.lastFocusTick 7 = 0 ∧ s'.ticks.lastFocusTick 7 = 2 :=
  ⟨_, _, rfl, ⟨focused ++ [.timeout], [], rfl, by simp⟩, rfl,
    stays_of_no_monitor (by simp) _ 7, rfl, rfl⟩

end Swayr.Theorems.FrozenOrder
