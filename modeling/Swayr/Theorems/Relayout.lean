import Swayr.Layout.Relayout

/-!
# Rearranging a workspace conserves its windows

What is assumed of sway is stated in `Sway`; it is a peer whose states tell on
which workspace each window is, which workspace is current and which window is
focused. Every window that is moved to the temporary workspace comes back to the
current one, and no command on the way makes another workspace current.
-/

namespace Swayr.Theorems.Relayout

open Ipc Swayr.Tree Kit Layout Cmds Std.Do

set_option mvcgen.warning false

/-- The commands that have nothing to do with workspaces. -/
def Arranges : Command → Bool
  | .floatingDisable _ | .focusParent | .layout _ => true
  | _ => false

/-- The command moves the window `id`. -/
def Moves (id : Int) : Command → Bool
  | .moveToWorkspace j _ => j == id
  | _ => false

/-- Sway, as far as the commands that succeed go. -/
structure Sway (σ : Type) extends Peer σ Command SwayError where
  workspaceOf : σ → Int → Option String
  current : σ → String
  focused : σ → Option Int
  /-- `move to workspace` moves only the given window. -/
  move_others : ∀ {id name s t}, exec (.moveToWorkspace id name) s = (.ok (), t) →
    ∀ j, j ≠ id → workspaceOf t j = workspaceOf s j
  move_current : ∀ {id name s t}, exec (.moveToWorkspace id name) s = (.ok (), t) →
    current t = current s
  move_away : ∀ {id s t}, exec (.moveToWorkspace id swayrTmpWorkspace) s = (.ok (), t) →
    workspaceOf t id = some swayrTmpWorkspace
  move_back : ∀ {id s t}, exec (.moveToWorkspace id "current") s = (.ok (), t) →
    workspaceOf t id = some (current s)
  focus_workspaceOf : ∀ {id s t}, exec (.focus id) s = (.ok (), t) →
    workspaceOf t = workspaceOf s
  /-- Focusing a window makes its workspace current. -/
  focus_current : ∀ {id s t ws}, exec (.focus id) s = (.ok (), t) →
    workspaceOf s id = some ws → current t = ws
  focus_focused : ∀ {id s t}, exec (.focus id) s = (.ok (), t) → focused t = some id
  arranges_workspaceOf : ∀ {c s t}, Arranges c → exec c s = (.ok (), t) →
    workspaceOf t = workspaceOf s
  arranges_current : ∀ {c s t}, Arranges c → exec c s = (.ok (), t) → current t = current s

variable {σ : Type} (S : Sway σ)

/-- The tree sway sends shows the state `w`: the workspace with the focused node
is the current one, and focused windows are marked. -/
structure Shows (w : σ) (root : Node) : Prop where
  distinct : DistinctIds root
  on_current : ∀ ws, currentWorkspace? root = some ws → ∀ win ∈ ws.nodesOfType .window,
    S.workspaceOf w win.id = some (S.current w)
  focused : ∀ win ∈ root.nodesOfType .window, win.focused ↔ S.focused w = some win.id

/-- The ids of the windows that are moved. -/
def movedIds (root : Node) (includeFloating : Bool) : List Int :=
  match currentWorkspace? root with
  | some ws => (moved includeFloating (ws.nodesOfType .window)).map Node.id
  | none => []

/-- Away and back again. -/
def thereAndBack (id : Int) : List Command :=
  [.moveToWorkspace id swayrTmpWorkspace, .moveToWorkspace id "current"]

/-- What a rearrangement that succeeds leaves behind. -/
structure Conserved (root : Node) (includeFloating : Bool) (w : σ) (s : Session σ Command) :
    Prop where
  workspaceOf : S.workspaceOf s.state = S.workspaceOf w
  current : S.current s.state = S.current w
  moves : ∀ id, s.sent.filter (Moves id) =
    if id ∈ movedIds root includeFloating then thereAndBack id else []
  focused : ∀ ws, currentWorkspace? root = some ws → ∀ win ∈ ws.nodesOfType .window,
    S.focused w = some win.id → S.focused s.state = some win.id

/-! ## One command -/

/-- On the way, the windows `away` are on the temporary workspace and the windows
`placed` are back. -/
structure Progress (w : σ) (away placed : List Int) (s : Session σ Command) : Prop where
  workspaceOf : ∀ id, S.workspaceOf s.state id =
    if id ∈ away then some swayrTmpWorkspace else S.workspaceOf w id
  current : S.current s.state = S.current w
  moves : ∀ id, s.sent.filter (Moves id) =
    if id ∈ placed then thereAndBack id
    else if id ∈ away then [.moveToWorkspace id swayrTmpWorkspace] else []

variable {S} {w : σ} {away placed : List Int} {s : Session σ Command} {id : Int} {a : Unit}

theorem Progress.start (S : Sway σ) (w : σ) : Progress S w [] [] ⟨w, []⟩ where
  workspaceOf := by simp
  current := rfl
  moves := by simp

theorem Progress.of_perm (h : Progress S w away placed s) {away' placed' : List Int}
    (haway : away.Perm away') (hplaced : placed.Perm placed') :
    Progress S w away' placed' s where
  workspaceOf id := by rw [h.workspaceOf]; simp [haway.mem_iff]
  current := h.current
  moves id := by rw [h.moves]; simp [haway.mem_iff, hplaced.mem_iff]

/-- A command that moves nothing and keeps the current workspace. -/
theorem Progress.frame (h : Progress S w away placed s) {c : Command} {t : σ}
    (hmoves : ∀ id, Moves id c = false) (hworkspaceOf : S.workspaceOf t = S.workspaceOf s.state)
    (hcurrent : S.current t = S.current s.state) :
    Progress S w away placed ⟨t, s.sent ++ [c]⟩ where
  workspaceOf id := by rw [← h.workspaceOf id]; exact congrFun hworkspaceOf id
  current := hcurrent.trans h.current
  moves id := by rw [← h.moves id, List.filter_append]; simp [hmoves]

/-- Layout commands move no window to another workspace. -/
theorem Progress.arrange (h : Progress S w away placed s) {c : Command} (hc : Arranges c)
    (hok : (S.exec c s.state).1 = .ok a) :
    Progress S w away placed ⟨(S.exec c s.state).2, s.sent ++ [c]⟩ := by
  have hexec := Peer.exec_eq_of_ok hok
  refine h.frame (fun id => ?_) (S.arranges_workspaceOf hc hexec) (S.arranges_current hc hexec)
  cases c with
  | moveToWorkspace j name => simp [Arranges] at hc
  | focus | floatingDisable | focusParent | layout => rfl

/-- A window goes to the temporary workspace. -/
theorem Progress.moveAway (h : Progress S w away [] s) (hid : id ∉ away)
    (hok : (S.exec (.moveToWorkspace id swayrTmpWorkspace) s.state).1 = .ok a) :
    Progress S w (away ++ [id]) []
      ⟨(S.exec (.moveToWorkspace id swayrTmpWorkspace) s.state).2,
        s.sent ++ [.moveToWorkspace id swayrTmpWorkspace]⟩ where
  workspaceOf j := by
    have hexec := Peer.exec_eq_of_ok hok
    by_cases hj : j = id
    · subst hj
      simpa using S.move_away hexec
    · rw [S.move_others hexec j hj, h.workspaceOf]
      simp [hj]
  current := (S.move_current (Peer.exec_eq_of_ok hok)).trans h.current
  moves j := by
    rw [List.filter_append, h.moves]
    by_cases hj : j = id
    · subst hj
      simp [Moves, hid]
    · simp [Moves, hj, Ne.symm hj]

/-- A window comes back to the current workspace, which is the one it was on. -/
theorem Progress.moveBack (h : Progress S w (id :: away) placed s) (haway : id ∉ away)
    (hplaced : id ∉ placed) (hhome : S.workspaceOf w id = some (S.current w))
    (hok : (S.exec (.moveToWorkspace id "current") s.state).1 = .ok a) :
    Progress S w away (placed ++ [id])
      ⟨(S.exec (.moveToWorkspace id "current") s.state).2,
        s.sent ++ [.moveToWorkspace id "current"]⟩ where
  workspaceOf j := by
    have hexec := Peer.exec_eq_of_ok hok
    -- The window that is moved comes home; the others stay where they are.
    by_cases hj : j = id
    · subst hj
      rw [S.move_back hexec, if_neg haway, hhome, h.current]
    · rw [S.move_others hexec j hj, h.workspaceOf]
      simp [hj]
  current := (S.move_current (Peer.exec_eq_of_ok hok)).trans h.current
  moves j := by
    rw [List.filter_append, h.moves]
    by_cases hj : j = id
    · subst hj
      simp [Moves, hplaced, thereAndBack]
    · simp [Moves, hj, Ne.symm hj]

/-- Focusing a window that is at home on the current workspace. -/
theorem Progress.focus (h : Progress S w away placed s) (haway : id ∉ away)
    (hhome : S.workspaceOf w id = some (S.current w))
    (hok : (S.exec (.focus id) s.state).1 = .ok a) :
    Progress S w away placed ⟨(S.exec (.focus id) s.state).2, s.sent ++ [.focus id]⟩ := by
  have hexec := Peer.exec_eq_of_ok hok
  have hws : S.workspaceOf s.state id = some (S.current w) := by
    rw [h.workspaceOf, if_neg haway, hhome]
  refine h.frame (fun _ => rfl) (S.focus_workspaceOf hexec) ?_
  rw [S.focus_current hexec hws, h.current]

/-! ## The loops -/

/-- The windows at home on the current workspace, no id twice. -/
structure AtHome (S : Sway σ) (w : σ) (wins : List Node) : Prop where
  nodup : (wins.map Node.id).Nodup
  home : ∀ win ∈ wins, S.workspaceOf w win.id = some (S.current w)

theorem AtHome.of_perm {wins wins' : List Node} (h : AtHome S w wins) (hperm : wins'.Perm wins) :
    AtHome S w wins' :=
  ⟨(hperm.map Node.id).nodup_iff.mpr h.nodup, fun win hwin => h.home win (hperm.mem_iff.mp hwin)⟩

section order

variable {order done todo : List Node} {win : Node} (h : AtHome S w order)
  (hsplit : order = done ++ win :: todo)

include h hsplit

/-- The next window in the order comes back. -/
theorem Progress.place
    (hprog : Progress S w ((win :: todo).map Node.id) (done.map Node.id) s)
    (hok : (S.exec (.moveToWorkspace win.id "current") s.state).1 = .ok a) :
    Progress S w (todo.map Node.id) ((done ++ [win]).map Node.id)
      ⟨(S.exec (.moveToWorkspace win.id "current") s.state).2,
        s.sent ++ [.moveToWorkspace win.id "current"]⟩ := by
  subst hsplit
  have hnodup := h.nodup
  simp only [List.map_append, List.map_cons, List.nodup_append, List.nodup_cons,
    List.mem_cons] at hnodup
  have htodo : win.id ∉ todo.map Node.id := hnodup.2.1.1
  have hdone : win.id ∉ done.map Node.id := fun hmem => hnodup.2.2 _ hmem _ (.inl rfl) rfl
  rw [List.map_append]
  exact hprog.moveBack htodo hdone (h.home win (by simp)) hok

/-- One of the windows that are back is focused. -/
theorem Progress.focusPlaced
    (hprog : Progress S w (todo.map Node.id) ((done ++ [win]).map Node.id) s)
    {chosen : Node} (hchosen : chosen ∈ done ++ [win])
    (hok : (S.exec (.focus chosen.id) s.state).1 = .ok a) :
    Progress S w (todo.map Node.id) ((done ++ [win]).map Node.id)
      ⟨(S.exec (.focus chosen.id) s.state).2, s.sent ++ [.focus chosen.id]⟩ := by
  have heq : order = (done ++ [win]) ++ todo := by simp [hsplit]
  subst heq
  have hnodup := h.nodup
  rw [List.map_append, List.nodup_append] at hnodup
  have htodo : chosen.id ∉ todo.map Node.id := fun hmem =>
    hnodup.2.2 _ (List.mem_map_of_mem hchosen) _ hmem rfl
  exact hprog.focus htodo (h.home chosen (List.mem_append_left _ hchosen)) hok

end order

/-- Whatever the shuffle and the choices, all windows come back. -/
theorem tileWins_spec (rng : Rng Node) (shuffle : Bool) {wins : List Node}
    (h : AtHome S w wins) :
    ⦃fun s => ⌜Progress S w (wins.map Node.id) [] s⌝⦄
    tileWins S.toPeer rng shuffle wins
    ⦃⇓? _ s => ⌜Progress S w [] (wins.map Node.id) s⌝⦄ := by
  have hperm : (if shuffle then rng.shuffle wins else wins.reverse).Perm wins := by
    cases shuffle
    · exact List.reverse_perm wins
    · exact rng.shuffle_perm wins
  have horder := h.of_perm hperm
  mvcgen [tileWins, bringBack, Peer.send] invariants
  · ⇓? ⟨⟨done, todo, _⟩, placedWins⟩ s =>
      ⌜placedWins = done ∧ Progress S w (todo.map Node.id) (done.map Node.id) s⌝
  -- floating windows: some window focused afterwards, none, and windows in order
  case vc1 hsplit _ _ hinv _ _ _ hfloat _ hback _ _ _ hchosen _ hfocus =>
    obtain ⟨rfl, hprog⟩ := hinv
    refine ⟨rfl, ?_⟩
    exact ((hprog.arrange rfl hfloat).place horder hsplit hback).focusPlaced horder hsplit
      (rng.choose_mem _ _ hchosen) hfocus
  case vc3 hsplit _ _ hinv _ _ _ hfloat _ hback _ _ _ _ _ =>
    obtain ⟨rfl, hprog⟩ := hinv
    exact ⟨rfl, (hprog.arrange rfl hfloat).place horder hsplit hback⟩
  case vc4 hsplit _ _ hinv _ _ _ hfloat _ hback _ _ =>
    obtain ⟨rfl, hprog⟩ := hinv
    exact ⟨rfl, (hprog.arrange rfl hfloat).place horder hsplit hback⟩
  -- tiled windows, the same three ways
  case vc7 hsplit _ _ hinv _ _ _ hback _ _ _ hchosen _ hfocus =>
    obtain ⟨rfl, hprog⟩ := hinv
    refine ⟨rfl, ?_⟩
    exact (hprog.place horder hsplit hback).focusPlaced horder hsplit
      (rng.choose_mem _ _ hchosen) hfocus
  case vc9 hsplit _ _ hinv _ _ _ hback _ _ _ _ _ =>
    obtain ⟨rfl, hprog⟩ := hinv
    exact ⟨rfl, hprog.place horder hsplit hback⟩
  case vc10 hsplit _ _ hinv _ _ _ hback _ _ =>
    obtain ⟨rfl, hprog⟩ := hinv
    exact ⟨rfl, hprog.place horder hsplit hback⟩
  case vc12 hprog _ hparent _ hlayout _ =>
    refine ⟨rfl, ?_⟩
    exact ((hprog.arrange rfl hparent).arrange rfl hlayout).of_perm (hperm.map _).symm (.refl _)
  case vc13 hinv =>
    exact hinv.2.of_perm (.refl _) (hperm.map _)

theorem tabWins_spec {wins : List Node} (h : AtHome S w wins) :
    ⦃fun s => ⌜Progress S w (wins.map Node.id) [] s⌝⦄
    tabWins S.toPeer wins
    ⦃⇓? _ s => ⌜Progress S w [] (wins.map Node.id) s⌝⦄ := by
  have hperm : wins.reverse.Perm wins := List.reverse_perm wins
  have horder := h.of_perm hperm
  mvcgen [tabWins, bringBack, Peer.send] invariants
  · ⇓? ⟨⟨done, todo, _⟩, _⟩ s => ⌜Progress S w (todo.map Node.id) (done.map Node.id) s⌝
  case vc1 hsplit _ _ hprog _ _ _ hfloat _ hback =>
    exact (hprog.arrange rfl hfloat).place horder hsplit hback
  case vc4 hsplit _ _ hprog _ _ _ hback => exact hprog.place horder hsplit hback
  case vc6 hprog _ hparent _ hlayout =>
    exact ((hprog.arrange rfl hparent).arrange rfl hlayout).of_perm (hperm.map _).symm (.refl _)
  case vc7 hprog => exact hprog.of_perm (.refl _) (hperm.map _)

/-! ## The whole call -/

/-- The windows of the current workspace are there. -/
theorem Shows.atHome {root ws : Node} (h : Shows S w root)
    (hws : currentWorkspace? root = some ws) :
    AtHome S w (ws.nodesOfType .window) := by
  refine ⟨?_, h.on_current ws hws⟩
  have hsub : ((ws.nodesOfType .window).map Node.id).Sublist (ws.preorder.map Node.id) := by
    rw [Node.nodesOfType_eq]
    exact List.filter_sublist.map _
  exact (h.distinct.subtree (currentWorkspace_mem hws)).sublist hsub

theorem AtHome.sublist {wins wins' : List Node} (h : AtHome S w wins) (hsub : wins'.Sublist wins) :
    AtHome S w wins' :=
  ⟨h.nodup.sublist (hsub.map _), fun win hwin => h.home win (hsub.subset hwin)⟩

/-- The window the loop over the windows takes for the focused one. -/
def lastFocused (wins : List Node) : Option Node := (wins.filter (·.focused)).getLast?

theorem lastFocused_append_singleton (wins : List Node) (win : Node) :
    lastFocused (wins ++ [win]) = if win.focused then some win else lastFocused wins := by
  cases h : win.focused <;> simp [lastFocused, List.filter_append, h]

/-- The state of the loop that moves the windows away. -/
structure Taken (S : Sway σ) (w : σ) (includeFloating : Bool) (done movedWins : List Node)
    (focusedWin : Option Node) (s : Session σ Command) : Prop where
  movedWins_eq : movedWins = moved includeFloating done
  focusedWin_eq : focusedWin = lastFocused done
  progress : Progress S w (movedWins.map Node.id) [] s

section loop

variable {includeFloating : Bool} {wins done todo movedWins : List Node}
  {focusedWin focusedWin' : Option Node} {win : Node}
  (h : Taken S w includeFloating done movedWins focusedWin s)
  (hfocused : focusedWin' = if win.focused then some win else focusedWin)

include h hfocused

/-- A floating window that is left where it is. -/
theorem Taken.skip (hskip : (!includeFloating && win.isFloating) = true) :
    Taken S w includeFloating (done ++ [win]) movedWins focusedWin' s where
  movedWins_eq := by
    rw [h.movedWins_eq, moved, moved, List.filter_append]
    simp_all
  focusedWin_eq := by rw [lastFocused_append_singleton, hfocused, h.focusedWin_eq]
  progress := h.progress

/-- A window that is moved. -/
theorem Taken.move (hhome : AtHome S w wins) (hsplit : wins = done ++ win :: todo)
    (hskip : ¬ (!includeFloating && win.isFloating) = true)
    (hok : (S.exec (.moveToWorkspace win.id swayrTmpWorkspace) s.state).1 = .ok a) :
    Taken S w includeFloating (done ++ [win]) (movedWins ++ [win]) focusedWin'
      ⟨(S.exec (.moveToWorkspace win.id swayrTmpWorkspace) s.state).2,
        s.sent ++ [.moveToWorkspace win.id swayrTmpWorkspace]⟩ where
  movedWins_eq := by
    have hmoved : (includeFloating || !win.isFloating) = true := by
      cases includeFloating <;> simp_all
    rw [h.movedWins_eq, moved, moved, List.filter_append]
    simp [hmoved]
  focusedWin_eq := by rw [lastFocused_append_singleton, hfocused, h.focusedWin_eq]
  progress := by
    have hnodup := hhome.nodup
    simp only [hsplit, List.map_append, List.map_cons, List.nodup_append, List.mem_cons] at hnodup
    have hsub : movedWins.map Node.id ⊆ done.map Node.id := by
      rw [h.movedWins_eq]
      exact (List.filter_sublist.map _).subset
    have hnew : win.id ∉ movedWins.map Node.id := fun hmem =>
      hnodup.2.2 _ (hsub hmem) _ (.inl rfl) rfl
    rw [List.map_append]
    exact h.progress.moveAway hnew hok

end loop

/-- The window taken for the focused one is the focused one. -/
theorem Shows.lastFocused_eq {root ws other : Node} (h : Shows S w root)
    (hws : currentWorkspace? root = some ws) (hother : other ∈ ws.nodesOfType .window)
    (hfocused : S.focused w = some other.id) :
    ∃ win, lastFocused (ws.nodesOfType .window) = some win ∧ win.id = other.id := by
  have hroot : ∀ n ∈ ws.nodesOfType .window, n ∈ root.nodesOfType .window := by
    intro n hn
    rw [Node.mem_nodesOfType] at hn ⊢
    exact ⟨mem_preorder_trans (currentWorkspace_mem hws) hn.1, hn.2⟩
  have hmem : other ∈ (ws.nodesOfType .window).filter (·.focused) :=
    List.mem_filter.mpr ⟨hother, (h.focused other (hroot other hother)).mpr hfocused⟩
  obtain ⟨win, hwin⟩ := Option.isSome_iff_exists.mp
    (List.getLast?_isSome.mpr (List.ne_nil_of_mem hmem))
  obtain ⟨hwindow, hwinFocused⟩ := List.mem_filter.mp (List.mem_of_getLast? hwin)
  have hsame := (h.focused win (hroot win hwindow)).mp hwinFocused
  exact ⟨win, hwin, Option.some.inj (hsame.symm.trans hfocused)⟩

theorem Progress.conserved {root ws : Node} {includeFloating : Bool}
    (hws : currentWorkspace? root = some ws)
    (h : Progress S w [] ((moved includeFloating (ws.nodesOfType .window)).map Node.id) s)
    (hfocused : ∀ win ∈ ws.nodesOfType .window, S.focused w = some win.id →
      S.focused s.state = some win.id) : Conserved S root includeFloating w s where
  workspaceOf := funext fun id => by simpa using h.workspaceOf id
  current := h.current
  moves id := by simpa [movedIds, hws] using h.moves id
  focused ws' hws' := by
    obtain rfl : ws = ws' := Option.some.inj (hws.symm.trans hws')
    exact hfocused

/-- The last command focuses the window that was focused at the start. -/
theorem Taken.conserved_of_some {root ws win : Node} {includeFloating : Bool}
    {movedWins : List Node} {s₀ : Session σ Command} (hshows : Shows S w root)
    (hws : currentWorkspace? root = some ws)
    (htaken : Taken S w includeFloating (ws.nodesOfType .window) movedWins (some win) s₀)
    (h : Progress S w [] (movedWins.map Node.id) s)
    (hok : (S.exec (.focus win.id) s.state).1 = .ok a) :
    Conserved S root includeFloating w
      ⟨(S.exec (.focus win.id) s.state).2, s.sent ++ [.focus win.id]⟩ := by
  have hwin : win ∈ ws.nodesOfType .window :=
    List.mem_of_mem_filter (List.mem_of_getLast? htaken.focusedWin_eq.symm)
  have hprog := h.focus (by simp) ((hshows.atHome hws).home win hwin) hok
  refine Progress.conserved hws (htaken.movedWins_eq ▸ hprog) fun other hother hfocused => ?_
  obtain ⟨last, hlast, hid⟩ := hshows.lastFocused_eq hws hother hfocused
  obtain rfl : win = last := Option.some.inj (htaken.focusedWin_eq.trans hlast)
  rw [← hid]
  exact S.focus_focused (Peer.exec_eq_of_ok hok)

/-- No window of the workspace was focused at the start. -/
theorem Taken.conserved_of_none {root ws : Node} {includeFloating : Bool}
    {movedWins : List Node} {s₀ : Session σ Command} (hshows : Shows S w root)
    (hws : currentWorkspace? root = some ws)
    (htaken : Taken S w includeFloating (ws.nodesOfType .window) movedWins none s₀)
    (h : Progress S w [] (movedWins.map Node.id) s) : Conserved S root includeFloating w s := by
  refine Progress.conserved hws (htaken.movedWins_eq ▸ h) fun other hother hfocused => ?_
  obtain ⟨last, hlast, -⟩ := hshows.lastFocused_eq hws hother hfocused
  simpa [hlast] using htaken.focusedWin_eq

/-- The loop over the windows, the given function, and the focus. -/
theorem relayoutCurrentWorkspace_spec {connects includeFloating : Bool} {tree : Node}
    {insertWinFn : List Node → SwayM σ Unit} (hshows : Shows S w (getRootNode false tree))
    (hinsert : ∀ wins, AtHome S w wins →
      ⦃fun s => ⌜Progress S w (wins.map Node.id) [] s⌝⦄ insertWinFn wins
      ⦃⇓? _ s => ⌜Progress S w [] (wins.map Node.id) s⌝⦄) :
    ⦃fun s => ⌜s = ⟨w, []⟩⌝⦄
    relayoutCurrentWorkspace S.toPeer connects tree includeFloating insertWinFn
    ⦃⇓? _ s => ⌜Conserved S (getRootNode false tree) includeFloating w s⌝⦄ := by
  mvcgen [relayoutCurrentWorkspace, Peer.send, hinsert] invariants
  · ⇓? ⟨⟨done, todo, _⟩, movedWins, focusedWin⟩ s =>
      ⌜Taken S w includeFloating done movedWins focusedWin s⌝
  case vc1 hfocused _ hskip _ htaken => exact htaken.skip (if_pos hfocused).symm hskip
  case vc2 hws _ _ _ _ _ _ _ _ hsplit _ _ _ _ hfocused _ hskip _ _ htaken _ hok =>
    exact htaken.move (if_pos hfocused).symm (hshows.atHome hws) hsplit hskip hok
  case vc4 hfocused hskip _ htaken => exact htaken.skip (if_neg hfocused).symm hskip
  case vc5 hws _ _ _ _ _ _ _ _ hsplit _ _ _ _ hfocused hskip _ _ htaken _ hok =>
    exact htaken.move (if_neg hfocused).symm (hshows.atHome hws) hsplit hskip hok
  case vc7 _ hs => exact hs ▸ ⟨rfl, rfl, .start S w⟩
  case vc8.a ws hws _ _ _ _ _ r _ _ _ htaken =>
    have hsub : r.1.Sublist (ws.nodesOfType .window) := htaken.movedWins_eq ▸ List.filter_sublist
    exact (hshows.atHome hws).sublist hsub
  case vc9 htaken => exact htaken.progress
  case vc10 hws _ _ _ _ _ r _ _ _ htaken _ _ hfocused _ hprog _ hok =>
    have hsome : r.2 = some _ := hfocused
    exact Taken.conserved_of_some hshows hws (hsome ▸ htaken) hprog hok
  case vc12 hws _ _ _ _ _ r _ _ _ htaken _ x hnone hfocused _ hprog =>
    have hx : r.2 = none := by
      have heq : r.2 = x := hfocused
      cases x with
      | none => exact heq
      | some win => exact absurd rfl (hnone win)
    exact Taken.conserved_of_none hshows hws (hx ▸ htaken) hprog

/-- The commands that rearrange the current workspace. -/
def relayoutCommands (floating : ConsiderFloating) : List SwayrCommand :=
  [.tileWorkspace floating, .tabWorkspace floating, .shuffleTileWorkspace floating,
    .toggleTabShuffleTileWorkspace floating]

/-- **Relayout conserves windows.** Whatever the tree, the shuffles and the random
choices: when a rearrangement of the current workspace ends without an error,
every window of the system is on the workspace it was on before, each window
that was moved went to the temporary workspace and back once, the current
workspace is the same, and so is the focused window if it is one of the
workspace's. -/
theorem relayout_conserves (S : Sway σ) (rng : Rng Node) (connects : Bool) (tree : Node) (w : σ)
    (hshows : Shows S w (getRootNode false tree)) (floating : ConsiderFloating)
    {cmd : SwayrCommand} (hcmd : cmd ∈ relayoutCommands floating)
    {run : StateM (Session σ Command) (Option SwayError)}
    (hexec : execRelayout S.toPeer rng connects tree cmd = some run)
    {s : Session σ Command} (hrun : run ⟨w, []⟩ = (none, s)) :
    Conserved S (getRootNode false tree) (floating == .includeFloating) w s := by
  have htile : ∀ shuffle, tileCurrentWorkspace S.toPeer rng connects tree floating shuffle
      ⟨w, []⟩ = (none, s) →
      Conserved S (getRootNode false tree) (floating == .includeFloating) w s := fun shuffle h =>
    of_triple (relayoutCurrentWorkspace_spec hshows fun _ hwins =>
      tileWins_spec rng shuffle hwins) rfl (run_of_logError_eq_none h)
  have htab : tabCurrentWorkspace S.toPeer connects tree floating ⟨w, []⟩ = (none, s) →
      Conserved S (getRootNode false tree) (floating == .includeFloating) w s := fun h =>
    of_triple (relayoutCurrentWorkspace_spec hshows fun _ hwins => tabWins_spec hwins) rfl
      (run_of_logError_eq_none h)
  simp only [relayoutCommands, List.mem_cons, List.not_mem_nil, or_false] at hcmd
  rcases hcmd with rfl | rfl | rfl | rfl
  · exact htile false (Option.some.inj hexec ▸ hrun)
  · exact htab (Option.some.inj hexec ▸ hrun)
  · exact htile true (Option.some.inj hexec ▸ hrun)
  · simp only [execRelayout, toggleTabTileCurrentWorkspace, Option.map_eq_some_iff] at hexec
    obtain ⟨curWs, -, rfl⟩ := hexec
    split at hrun
    · exact htile true hrun
    · exact htab hrun

/-- A desk with some windows on workspaces, for which every command succeeds. -/
structure Desk where
  workspaceOf : Int → Option String
  current : String
  focused : Option Int

def Desk.run (d : Desk) : Command → Desk
  | .moveToWorkspace id name =>
      { d with workspaceOf := Function.update d.workspaceOf id
                (some (if name = "current" then d.current else name)) }
  | .focus id =>
      { d with current := (d.workspaceOf id).getD d.current, focused := some id }
  | _ => d

def deskSway : Sway Desk where
  exec c d := (.ok (), d.run c)
  workspaceOf := Desk.workspaceOf
  current := Desk.current
  focused := Desk.focused
  move_others h j hj := by obtain rfl := (Prod.mk.inj h).2; simp [Desk.run, hj]
  move_current h := by obtain rfl := (Prod.mk.inj h).2; rfl
  move_away h := by
    obtain rfl := (Prod.mk.inj h).2
    have hname : swayrTmpWorkspace ≠ "current" := by decide
    simp [Desk.run, hname]
  move_back h := by obtain rfl := (Prod.mk.inj h).2; simp [Desk.run]
  focus_workspaceOf h := by obtain rfl := (Prod.mk.inj h).2; rfl
  focus_current h hws := by obtain rfl := (Prod.mk.inj h).2; simp [Desk.run, hws]
  focus_focused h := by obtain rfl := (Prod.mk.inj h).2; rfl
  arranges_workspaceOf {c _ _} hc h := by
    obtain rfl := (Prod.mk.inj h).2
    cases c <;> first | rfl | simp [Arranges] at hc
  arranges_current {c _ _} hc h := by
    obtain rfl := (Prod.mk.inj h).2
    cases c <;> first | rfl | simp [Arranges] at hc

/-- Two windows on the current workspace, one of them floating, and a third on
another workspace. -/
def deskTree : Node :=
  .mk ⟨{ id := 700, nodeType := .root }, rfl⟩
    [.mk ⟨{ id := 701, nodeType := .output }, rfl⟩
      [.mk ⟨{ id := 702, nodeType := .workspace, name := some "1" }, rfl⟩
        [.mk ⟨{ id := 703, nodeType := .con, pid := some 500, focused := true }, rfl⟩ [] []]
        [.mk ⟨{ id := 704, nodeType := .floatingCon, pid := some 501 }, rfl⟩ [] []],
      .mk ⟨{ id := 705, nodeType := .workspace, name := some "2" }, rfl⟩
        [.mk ⟨{ id := 706, nodeType := .con, pid := some 502 }, rfl⟩ [] []] []] []] []

def deskState : Desk where
  workspaceOf id := if id = 703 ∨ id = 704 then some "1" else if id = 706 then some "2" else none
  current := "1"
  focused := some 703

theorem deskState_shows : Shows deskSway deskState (getRootNode false deskTree) := by
  have hhome : ∀ ws ∈ currentWorkspace? (getRootNode false deskTree),
      ∀ win ∈ ws.nodesOfType .window, deskState.workspaceOf win.id = some "1" := by decide +kernel
  exact ⟨by decide +kernel, hhome, by decide +kernel⟩

/-- Two windows, in the order of a shuffle. -/
theorem relayout_conserves_desk :
    ∃ s, tileCurrentWorkspace deskSway.toPeer Rng.lastFirst true deskTree .includeFloating true
        ⟨deskState, []⟩ = (none, s) ∧
      Conserved deskSway (getRootNode false deskTree) true deskState s := by
  refine ⟨_, Prod.ext (by decide +kernel) rfl, ?_⟩
  exact relayout_conserves deskSway Rng.lastFirst true deskTree deskState deskState_shows
    .includeFloating (show .shuffleTileWorkspace .includeFloating ∈ _ by decide) rfl
    (Prod.ext (by decide +kernel) rfl)

end Swayr.Theorems.Relayout
