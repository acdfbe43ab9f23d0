import Swayr.Daemon.Serve

/-!
# Commands that wait for themselves

`exec_swayr_cmd` calls itself for a command chosen from the menu of
`ExecuteSwayrCommand`, with both of its mutexes locked, and keeps them for as long
as the user picks entries from the menu of `ConfigureOutputs`. These commands
apart, the threads of the daemon lock in one order, the condition variable's mutex
before `LAST_COMMAND` before `SWITCH_TO_MATCHING_DATA`, and every lock is released.
-/

namespace Swayr.Theorems.Blocking

open Cmds Daemon Kit.Locks

/-! ## The discipline -/

def rank : Lock → ℕ
  | .condvarMutex => 0
  | .lastCommand => 1
  | .switchToMatchingData => 2

/-- What the threads keep to: the order of the locks; the switch data are locked
under `LAST_COMMAND` only; after a command the request thread goes on to the
notification, and during that it locks nothing else. -/
@[mk_iff]
structure Discipline (autoNop : Bool) (t : Thread) (held : Set Lock) (p : Program) : Prop where
  ranked : Ranked rank held p
  nested : .switchToMatchingData ∈ held → .lastCommand ∈ held
  inner : ∀ rest, p = .acquire .switchToMatchingData :: rest → .lastCommand ∈ held
  notifies : t = .request → ∀ rest, p = .release .lastCommand :: rest → rest = notify autoNop
  notifying : t = .request → .condvarMutex ∈ held → ∀ l rest, p ≠ .acquire l :: rest
  enabled : t = .autoNop → autoNop = true

variable {autoNop : Bool} {requests : Set Request}

/-- Without the two kinds of requests all threads take the locks in their order. -/
theorem rounds_checked (h : ∀ req ∈ requests, ¬ ChoosesFromMenu req ∧ ¬ NeverDismisses req)
    (t : Thread) (p : Program) (hp : Rounds autoNop requests t p) :
    Checked (Discipline autoNop t) ∅ p := by
  cases hp with
  | @serve req hreq =>
      obtain ⟨hchooses, hdismisses⟩ := h req hreq
      rcases handleClientRequest_of_ends hchooses hdismisses with heq | heq | ⟨outputs, heq, hends⟩
      all_goals
        cases autoNop <;> simp [serveRound, heq, notify, guarded, Checked, Instr.later, after,
          discipline_iff, Ranked, rank]
      all_goals exact hends
  | autoNop fires hauto =>
      subst hauto
      cases fires <;> simp [autoNopRound, execProgram, guarded, Checked, Instr.later, after,
        discipline_iff, Ranked, rank]

/-! ## Owners that are not blocked -/

section ready

variable {c : Config Thread Lock} {t : Thread}

/-- The switch data are free or locked by the owner of `LAST_COMMAND`. -/
theorem lastCommand_of_switchToMatchingData (hf : Follows (Discipline autoNop) c)
    (h : c.owner .switchToMatchingData = some t) : c.owner .lastCommand = some t := by
  obtain ⟨i, p, hp⟩ := List.exists_cons_of_ne_nil (hf.todo_ne_nil h)
  exact (hf.cons hp).1.nested h

/-- Who holds the lock on the last command waits for nobody. -/
theorem ready_of_lastCommand (hf : Follows (Discipline autoNop) c)
    (h : c.owner .lastCommand = some t) : c.Ready t := by
  by_contra hready
  obtain ⟨l, p, hp, howned⟩ := Config.exists_acquire_of_not_ready (hf.todo_ne_nil h) hready
  have hranked := (hf.cons hp).1.ranked
  have hlt : rank .lastCommand < rank l := hranked _ h
  cases l with
  | condvarMutex | lastCommand => simp [rank] at hlt
  | switchToMatchingData =>
      obtain ⟨u, hu⟩ := Option.ne_none_iff_exists'.mp howned
      obtain rfl : t = u :=
        Option.some.inj (h.symm.trans (lastCommand_of_switchToMatchingData hf hu))
      exact lt_irrefl _ (hranked _ hu)

theorem ready_of_switchToMatchingData (hf : Follows (Discipline autoNop) c)
    (h : c.owner .switchToMatchingData = some t) : c.Ready t :=
  ready_of_lastCommand hf (lastCommand_of_switchToMatchingData hf h)

theorem ready_of_notifying (hf : Follows (Discipline autoNop) c)
    (h : c.owner .condvarMutex = some .request) : c.Ready .request := by
  by_contra hready
  obtain ⟨l, p, hp, -⟩ := Config.exists_acquire_of_not_ready (hf.todo_ne_nil h) hready
  exact (hf.cons hp).1.notifying rfl h l p rfl

/-- With the condition variable's mutex locked the auto-nop thread waits for
nothing but `LAST_COMMAND`. -/
theorem lastCommand_of_not_ready (hf : Follows (Discipline autoNop) c)
    (h : c.owner .condvarMutex = some .autoNop) (hready : ¬ c.Ready .autoNop) :
    c.owner .lastCommand = some .request := by
  obtain ⟨l, p, hp, howned⟩ := Config.exists_acquire_of_not_ready (hf.todo_ne_nil h) hready
  have hd := (hf.cons hp).1
  cases l with
  | condvarMutex => exact absurd (hd.ranked _ h) (lt_irrefl _)
  | switchToMatchingData => exact absurd (ready_of_lastCommand hf (hd.inner p rfl)) hready
  | lastCommand =>
      obtain ⟨u, hu⟩ := Option.ne_none_iff_exists'.mp howned
      cases u with
      | request => exact hu
      | autoNop => exact absurd (hd.ranked _ hu) (lt_irrefl _)

end ready

/-! ## Every lock is released -/

section runs

variable {r : Run (Rounds autoNop requests) .init} (hfair : r.Fair)
  (hf : ∀ n, Follows (Discipline autoNop) (r.state n)) {n : ℕ} {t : Thread}

include hfair hf

theorem lastCommand_released (h : (r.state n).owner .lastCommand = some t) :
    ∃ m ≥ n, (r.state m).owner .lastCommand ≠ some t :=
  Run.released hf (fun _ => Run.acts_of_never_blocked hf hfair fun m =>
    ready_of_lastCommand (hf m)) h

theorem switchToMatchingData_released (h : (r.state n).owner .switchToMatchingData = some t) :
    ∃ m ≥ n, (r.state m).owner .switchToMatchingData ≠ some t :=
  Run.released hf (fun _ => Run.acts_of_never_blocked hf hfair fun m =>
    ready_of_switchToMatchingData (hf m)) h

/-- The auto-nop thread may have to wait for `LAST_COMMAND` with the condition
variable's mutex locked. But the request thread can have it only once before it
needs that mutex itself. -/
theorem autoNop_acts (h : (r.state n).owner .condvarMutex = some .autoNop) :
    ∃ m ≥ n, r.actor m = some .autoNop := by
  by_contra hnone
  have hkeeps : ∀ m ≥ n, (r.state m).owner .condvarMutex = some .autoNop := fun m hm =>
    (Set.ext_iff.mp (Run.unchanged hf hm fun k hk _ hact => hnone ⟨k, hk, hact⟩).2 _).mpr h
  have hagain : ∀ m ≥ n, ∃ k ≥ m, (r.state k).owner .lastCommand = some .request := by
    intro m hm
    by_contra hfree
    obtain ⟨k, hk, hact⟩ := hfair .autoNop m fun k hk => by
      by_contra hready
      exact hfree ⟨k, hk, lastCommand_of_not_ready (hf k) (hkeeps k (by omega)) hready⟩
    exact hnone ⟨k, by omega, hact⟩
  -- The request thread has `LAST_COMMAND` and gives it back.
  obtain ⟨k, hk, howner⟩ := hagain n le_rfl
  obtain ⟨m, hm, hreleased⟩ := lastCommand_released hfair hf howner
  obtain ⟨j, hkj, -, htodo, hgone⟩ := Run.exists_release hf hm howner hreleased
  -- Now it waits for the condition variable's mutex and stays without `LAST_COMMAND`.
  have hauto : autoNop = true := by
    obtain ⟨i, p, hp⟩ := List.exists_cons_of_ne_nil ((hf n).todo_ne_nil h)
    exact ((hf n).cons hp).1.enabled rfl
  have hnotify := (((hf j).cons htodo).1.notifies rfl _ rfl).trans (if_pos hauto)
  have hstuck := Run.stuck hf hnotify fun i hi => by simp [hkeeps i (by omega)]
  obtain ⟨i, hi, hback⟩ := hagain (j + 1) (by omega)
  exact hgone ((Set.ext_iff.mp (Run.unchanged hf hi fun k hk _ => hstuck k hk).2 _).mp hback)

/-- The mutex of the condition variable is given back, by the nop thread while it waits. -/
theorem condvarMutex_released (h : (r.state n).owner .condvarMutex = some t) :
    ∃ m ≥ n, (r.state m).owner .condvarMutex ≠ some t := by
  cases t with
  | request =>
      exact Run.released hf (fun _ => Run.acts_of_never_blocked hf hfair fun m =>
        ready_of_notifying (hf m)) h
  | autoNop => exact Run.released hf (fun _ => autoNop_acts hfair hf) h

end runs

/-! ## The property -/

/-- **Command execution does not block on itself**, whatever commands arrive
among `requests`. -/
structure NeverBlocks (autoNop : Bool) (requests : Set Request) : Prop where
  /-- No thread tries to acquire a lock it holds. -/
  no_reentry : ∀ c, Reachable (Rounds autoNop requests) c → ∀ t l rest,
    c.todo t = .acquire l :: rest → c.owner l ≠ some t
  /-- No threads wait for one another in a cycle. -/
  no_cycle : ∀ c, Reachable (Rounds autoNop requests) c → ∀ t, ¬ Relation.TransGen c.Waits t t
  /-- Every lock taken is released. -/
  releases : ∀ r : Run (Rounds autoNop requests) .init, r.Fair → ∀ n t l,
    (r.state n).owner l = some t → ∃ m ≥ n, (r.state m).owner l ≠ some t

theorem neverBlocks_of_ends (h : ∀ req ∈ requests, ¬ ChoosesFromMenu req ∧ ¬ NeverDismisses req) :
    NeverBlocks autoNop requests := by
  have hok : ∀ t held p, Discipline autoNop t held p → Ranked rank held p :=
    fun _ _ _ hd => hd.ranked
  have hfollows : ∀ c, Reachable (Rounds autoNop requests) c → Follows (Discipline autoNop) c :=
    fun c hc => follows_of_reachable (rounds_checked h) hc
  refine ⟨fun c hc t l rest htodo howner => ?_, fun c hc t => ?_, fun r hfair n t l hl => ?_⟩
  · exact not_waits_self hok (hfollows c hc) t ⟨l, rest, htodo, howner⟩
  · exact waits_acyclic hok (hfollows c hc) t
  · have hf := fun n => hfollows _ (r.reachable .refl n)
    cases l with
    | lastCommand => exact lastCommand_released hfair hf hl
    | switchToMatchingData => exact switchToMatchingData_released hfair hf hl
    | condvarMutex => exact condvarMutex_released hfair hf hl

/-! ## Requests that block -/

/-- The request thread in the midst of a command, with both locks and nobody else
doing anything. -/
theorem exists_in_command (autoNop : Bool) {req : Request} (hreq : req ∈ requests)
    (body : Program) (hround : handleClientRequest req = guarded body) :
    ∃ c, Reachable (Rounds autoNop requests) c ∧
      (∃ rest, c.todo .request = body ++ rest) ∧ c.owner .lastCommand = some .request ∧
      ∀ t ≠ .request, c.todo t = [] := by
  have hserve : serveRound autoNop req = .acquire .lastCommand ::
      .acquire .switchToMatchingData :: .work :: (body ++ ([.release .switchToMatchingData,
        .release .lastCommand] ++ notify autoNop)) := by
    simp [serveRound, hround, guarded]
  have hinit : Reachable (Rounds autoNop requests) .init := .refl
  have hbegun := hinit.step (.start (t := .request) rfl (.serve hreq))
  have hlast := hbegun.step (.acquire (t := .request) (l := .lastCommand)
    (by simp [hserve]; rfl) rfl)
  have hswitch := hlast.step (.acquire (t := .request) (l := .switchToMatchingData)
    (by simp; rfl) rfl)
  have hwork := hswitch.step (.work (t := .request) (by simp; rfl))
  refine ⟨_, hwork, ⟨_, by simp; rfl⟩, rfl, fun t ht => ?_⟩
  simp [Function.update_of_ne ht, Config.init]

theorem execProgram_eq (outputs : ℕ → Bool) (cmd : SwayrCommand) (answers : List MenuAnswer) :
    ∃ body, execProgram outputs cmd answers = guarded body := by
  unfold execProgram
  split <;> exact ⟨_, rfl⟩

/-- A choice from the menu leads to the thread waiting for itself. -/
theorem reentry_of_chooses (autoNop : Bool) {req : Request} (hreq : req ∈ requests)
    (h : ChoosesFromMenu req) :
    ∃ c, Reachable (Rounds autoNop requests) c ∧ ∃ rest,
      c.todo .request = .acquire .lastCommand :: rest ∧
        c.owner .lastCommand = some .request := by
  obtain ⟨chosen, commands, outputs, rfl⟩ := h
  obtain ⟨body, hbody⟩ := execProgram_eq outputs chosen.1 commands
  obtain ⟨c, hc, ⟨rest, htodo⟩, howner, -⟩ := exists_in_command autoNop hreq
    (execProgram outputs chosen.1 commands) rfl
  rw [hbody] at htodo
  exact ⟨c, hc, _, htodo, howner⟩

/-- With a menu that is always answered the locks are kept for good. -/
theorem kept_of_neverDismisses (autoNop : Bool) {req : Request} (hreq : req ∈ requests)
    (h : NeverDismisses req) :
    ∃ r : Run (Rounds autoNop requests) .init, r.Fair ∧
      ∃ n, ∀ m ≥ n, (r.state m).owner .lastCommand = some .request := by
  obtain ⟨commands, outputs, rfl, hagain⟩ := h
  obtain ⟨c, hc, ⟨rest, htodo⟩, howner, hidle⟩ := exists_in_command autoNop hreq
    [.loop outputs] (by simp [handleClientRequest, execProgram])
  obtain ⟨r, hfair, n, hkept⟩ := exists_run_keeping hc htodo hagain hidle
  exact ⟨r, hfair, n, fun m hm => by rw [hkept m hm, howner]⟩

/-- **When commands block on themselves.** Command execution never blocks on
itself if and only if no `ExecuteSwayrCommand` that may arrive has its menu
answered with one of the offered commands, and no `ConfigureOutputs` has its menu
answered with an offered entry every time. -/
theorem neverBlocks_iff (autoNop : Bool) (requests : Set Request) :
    NeverBlocks autoNop requests ↔
      ∀ req ∈ requests, ¬ ChoosesFromMenu req ∧ ¬ NeverDismisses req := by
  refine ⟨fun h req hreq => ⟨fun hchooses => ?_, fun hdismisses => ?_⟩, neverBlocks_of_ends⟩
  · obtain ⟨c, hc, rest, htodo, howner⟩ := reentry_of_chooses autoNop hreq hchooses
    exact h.no_reentry c hc _ _ rest htodo howner
  · obtain ⟨r, hfair, n, hkept⟩ := kept_of_neverDismisses autoNop hreq hdismisses
    obtain ⟨m, hm, hreleased⟩ := h.releases r hfair n _ _ (hkept n le_rfl)
    exact hreleased (hkept m hm)

/-- The first command of the menu, chosen by the user. -/
def chooseFirst : Request :=
  some (.executeSwayrCommand, ⟨[some ⟨.moveFocusedToWorkspace, by decide⟩], fun _ => false⟩)

/-- The thread asks for a lock that it holds. -/
theorem chooseFirst_waits_for_itself :
    ∃ c, Reachable (Rounds false { chooseFirst }) c ∧ ∃ rest,
      c.todo .request = .acquire .lastCommand :: rest ∧
        c.owner .lastCommand = some .request :=
  reentry_of_chooses false rfl ⟨_, _, _, rfl⟩

end Swayr.Theorems.Blocking
