import Swayr.Daemon.Requests
import Swayr.Theorems.MenuActions

/-!
# Which windows the daemon closes

Over any run of the request loop, on whatever the clients write, the daemon asks sway
to close a window, or kills its process, only because a quit command was received and
the user picked that window, or a container or workspace it is in, from its menu; or
because the user gave the sway command themselves, where a menu takes one.
-/

namespace Swayr.Theorems.ClosedOnRequest

open Cfg Ipc Swayr.Tree Focus Shared Kit Kit.Text Menu Cmds Criteria Daemon MenuActions

/-! ## Closing requests -/

/-- What makes a window go away. -/
inductive Closing
  | window (id : Int)
  /-- The focused window, whichever it is. -/
  | focused
  | process (pid : Int)
deriving DecidableEq, Repr

/-- The request closes a window: it has the text that `quit_window_by_id` sends, is
sway's `kill`, or kills the process. -/
def Closing.By (r : SwayRequest) : Closing → Prop
  | window id => r.text = some (runSwayCommand [conId id, "kill".toList])
  | focused => r.text = some "kill".toList
  | process pid => r = .killProcess pid

/-- The requests that are made to close something, and those that the user has worded. -/
inductive Kind
  | quits (c : Closing)
  | users (cmd : Text)
deriving DecidableEq, Repr

def kind? : SwayRequest → Option Kind
  | .quitWindow id => some (.quits (.window id))
  | .killProcess pid => some (.quits (.process pid))
  | .sway cmd => some (.users cmd)
  | _ => none

/-! ## Texts -/

section text

variable {a b : Text} {c : Char} {rest : List Text}

theorem runSwayCommand_cons_cons :
    runSwayCommand (a :: b :: rest) = a ++ ' ' :: runSwayCommand (b :: rest) := by
  rw [runSwayCommand, List.intercalate_cons_cons, List.append_assoc]
  rfl

theorem head?_runSwayCommand (h : a.head? = some c) :
    (runSwayCommand (a :: rest)).head? = some c := by
  obtain ⟨tail, rfl⟩ := List.head?_eq_some_iff.mp h
  cases rest with
  | nil => simp [runSwayCommand]
  | cons b rest => rw [runSwayCommand_cons_cons]; rfl

theorem getLast?_runSwayCommand (h : (runSwayCommand (b :: rest)).getLast? = some c) :
    (runSwayCommand (a :: b :: rest)).getLast? = some c := by
  rw [runSwayCommand_cons_cons, List.append_cons, List.getLast?_append, h]
  rfl

theorem head?_conId (id : Int) : (Cmds.conId id).head? = some '[' := by
  have hfirst : "[con_id=".toList.head? = some '[' := by decide
  unfold Cmds.conId
  rw [List.append_assoc, List.head?_append, hfirst, Option.some_or]

/-- The text that closes a window by its id. -/
theorem text_quitWindow (id : Int) :
    runSwayCommand [conId id, "kill".toList] =
      "[con_id=".toList ++ (decimal id ++ ']' :: ' ' :: "kill".toList) := by
  have hlast : runSwayCommand ["kill".toList] = "kill".toList := List.intercalate_singleton
  unfold Cmds.conId
  rw [runSwayCommand_cons_cons, hlast]
  simp only [List.append_assoc, List.singleton_append]

/-- The text tells which window is to be closed. -/
theorem text_quitWindow_injective {i j : Int}
    (h : runSwayCommand [conId i, "kill".toList] = runSwayCommand [conId j, "kill".toList]) :
    i = j := by
  rw [text_quitWindow, text_quitWindow] at h
  exact decimal_injective (List.append_cancel_right (List.append_cancel_left h))

end text

/-- How the texts of all other requests differ from those that close a window. -/
inductive Unlike (t : Text) : Prop
  | begins {c : Char} (h : t.head? = some c) (hbracket : c ≠ '[') (hkill : c ≠ 'k')
  | ends {c : Char} (h : t.head? = some '[') (hlast : t.getLast? = some c) (hkill : c ≠ 'l')

/-- The requests of other kinds have texts that look like none of those that close. -/
theorem unlike_text {r : SwayRequest} {t : Text} (hkind : kind? r = none)
    (ht : r.text = some t) : Unlike t := by
  cases r with
  | quitWindow | killProcess | sway => cases hkind
  -- These begin with a criterion as `kill` does, so it is the last letter that differs.
  | focusWindow id =>
      obtain rfl := Option.some.inj ht
      exact .ends (head?_runSwayCommand (head?_conId _))
        (getLast?_runSwayCommand (show _ = some 's' by decide)) (by decide)
  | stealWindow id =>
      obtain rfl := Option.some.inj ht
      exact .ends (head?_runSwayCommand (head?_conId _))
        (getLast?_runSwayCommand (show _ = some 't' by decide)) (by decide)
  | markMoveTarget id =>
      obtain rfl := Option.some.inj ht
      have hfirst : "[con_id=\"".toList.head? = some '[' := by decide
      have hhead : ("[con_id=\"".toList ++ decimal id ++ "\"]".toList).head? = some '[' := by
        rw [List.append_assoc, List.head?_append, hfirst, Option.some_or]
      exact .ends (head?_runSwayCommand hhead)
        (getLast?_runSwayCommand (show _ = some '_' by decide)) (by decide)
  -- From here on the first letter is neither a bracket nor that of `kill`.
  | focusOutput name =>
      obtain rfl := Option.some.inj ht
      exact .begins (head?_runSwayCommand (show _ = some 'f' by decide)) (by decide) (by decide)
  | workspace name | workspaceNumber name =>
      obtain rfl := Option.some.inj ht
      exact .begins (head?_runSwayCommand (show _ = some 'w' by decide)) (by decide) (by decide)
  | moveToScratchpad =>
      obtain rfl := Option.some.inj ht
      exact .begins (show _ = some 'm' by decide) (by decide) (by decide)
  | moveToOutput name | moveToWorkspace name | moveToWorkspaceNumber name | moveToMoveTarget =>
      obtain rfl := Option.some.inj ht
      exact .begins (head?_runSwayCommand (show _ = some 'm' by decide)) (by decide) (by decide)
  | unmarkMoveTarget =>
      obtain rfl := Option.some.inj ht
      exact .begins (head?_runSwayCommand (show _ = some 'u' by decide)) (by decide) (by decide)
  | swapWith id =>
      obtain rfl := Option.some.inj ht
      exact .begins (head?_runSwayCommand (show _ = some 's' by decide)) (by decide) (by decide)

theorem not_unlike_quitWindow (id : Int) :
    ¬ Unlike (runSwayCommand [conId id, "kill".toList]) := by
  intro h
  cases h with
  | begins h hbracket hkill =>
      rw [head?_runSwayCommand (head?_conId _)] at h
      exact hbracket (Option.some.inj h).symm
  | ends h hlast hkill =>
      rw [getLast?_runSwayCommand (show _ = some 'l' by decide)] at hlast
      exact hkill (Option.some.inj hlast).symm

/-- The text that closes the focused window is not taken for another one. -/
theorem not_unlike_kill : ¬ Unlike "kill".toList := by
  have hk : "kill".toList.head? = some 'k' := by decide
  intro h
  cases h with
  | begins h hbracket hkill => exact hkill (Option.some.inj (h.symm.trans hk))
  | ends h hlast hkill => exact absurd (Option.some.inj (h.symm.trans hk)) (by decide)

/-- What closes a window is made for it, or worded by the user. -/
theorem Closing.By.kind {r : SwayRequest} {c : Closing} (h : c.By r) :
    kind? r = some (.quits c) ∨ ∃ cmd, r = .sway cmd := by
  -- for a text that is unlike the closing ones there is nothing to show
  have hkind : c = .focused ∨ (∃ id, c = .window id) → kind? r ≠ none := by
    rintro (rfl | ⟨id, rfl⟩) hnone
    · exact not_unlike_kill (unlike_text hnone h)
    · exact not_unlike_quitWindow id (unlike_text hnone h)
  cases c with
  | process pid =>
      obtain rfl : r = .killProcess pid := h
      exact .inl rfl
  | focused =>
      cases r with
      | sway cmd => exact .inr ⟨cmd, rfl⟩
      | killProcess pid => cases h
      | quitWindow id =>
          have hhead := congrArg List.head? (Option.some.inj h)
          rw [head?_runSwayCommand (head?_conId _)] at hhead
          exact absurd hhead (by decide)
      | _ => exact absurd rfl (hkind (.inl rfl))
  | window id =>
      cases r with
      | sway cmd => exact .inr ⟨cmd, rfl⟩
      | killProcess pid => cases h
      | quitWindow id' =>
          obtain rfl := text_quitWindow_injective (Option.some.inj h)
          exact .inl rfl
      | _ => exact absurd rfl (hkind (.inr ⟨id, rfl⟩))

/-- The commands that quit windows. -/
def quits : SwayrCommand → Bool
  | .quitWindow _ | .quitWorkspaceOrWindow | .quitWorkspaceContainerOrWindow => true
  | _ => false

/-- The commands whose menus take a sway command, picked or typed. -/
def takesSwayCommands : SwayrCommand → Bool
  | .executeSwaymsgCommand | .configureOutputs => true
  | .switchWindow | .switchWorkspace | .switchOutput | .switchWorkspaceOrWindow
  | .switchWorkspaceContainerOrWindow | .switchTo => true
  | _ => false

/-- The closing is meant for the window. -/
def Closing.For (n : Node) : Closing → Prop
  | .window id => n.id = id
  | .focused => False
  | .process pid => n.props.pid = some pid

section

variable {σ : Type} {E : RegexEngine} {S : Surroundings} {C : SwayConnection σ} {w : World}
  {cmd : SwayrCommand} {m : NodeMenu}

/-- What is asked for a picked node closes windows of it. -/
theorem kind_of_mem_quitChoice {kill : Bool} {n : Node} {r : SwayRequest} {k : Kind}
    (hr : r ∈ quitChoice kill n) (hk : kind? r = some k) :
    ∃ c, k = .quits c ∧ ∃ win ∈ n.preorder, win.getType = .window ∧ c.For win := by
  have hbelow : r ∈ (n.iter.filter (·.getType == .window)).map (fun win => .quitWindow win.id) →
      ∃ c, k = .quits c ∧ ∃ win ∈ n.preorder, win.getType = .window ∧ c.For win := by
    intro hr
    obtain ⟨win, hwin, rfl⟩ := List.mem_map.mp hr
    rw [Node.iter_eq_preorder, List.mem_filter, beq_iff_eq] at hwin
    exact ⟨_, (Option.some.inj hk).symm, win, hwin.1, hwin.2, rfl⟩
  unfold quitChoice at hr
  split at hr
  · exact hbelow hr
  · exact hbelow hr
  · rename_i hwindow
    split at hr
    · cases hpid : n.props.pid with
      | none => simp [killProcessByPid, hpid] at hr
      | some pid =>
          obtain rfl : r = .killProcess pid := by simpa [killProcessByPid, hpid] using hr
          exact ⟨_, (Option.some.inj hk).symm, n, mem_preorder_self n, hwindow, hpid⟩
    · obtain rfl : r = .quitWindow n.id := by simpa using hr
      exact ⟨_, (Option.some.inj hk).symm, n, mem_preorder_self n, hwindow, rfl⟩
  · simp at hr

/-- Nothing that is asked for closes a window, or is worded by the user. -/
def Harmless {α : Type} (f : α → List SwayRequest) : Prop := ∀ a, ∀ r ∈ f a, kind? r = none

theorem harmless_createWorkspace : Harmless (createWorkspace S) := by
  intro t r hr
  unfold createWorkspace at hr
  split at hr <;> · obtain rfl := List.mem_singleton.mp hr; rfl

theorem harmless_moveFocusedToWorkspace1 : Harmless (moveFocusedToWorkspace1 S) := by
  intro t r hr
  unfold moveFocusedToWorkspace1 at hr
  split at hr <;> · obtain rfl := List.mem_singleton.mp hr; rfl

/-- Input behind `s:` is a sway command. -/
theorem users_handleNonMatchingInput {t : Text} {r : SwayRequest}
    (hr : r ∈ handleNonMatchingInput S t) : kind? r = none ∨ ∃ cmd, r = .sway cmd := by
  unfold handleNonMatchingInput at hr
  split at hr
  · simp at hr
  split at hr
  · exact .inr ⟨_, List.mem_singleton.mp hr⟩
  · exact .inl (harmless_createWorkspace _ r hr)

theorem harmless_moveInput : Harmless (moveInput S) := fun _ r hr =>
  harmless_moveFocusedToWorkspace1 _ r hr

theorem harmless_focusChoice : Harmless focusChoice := by
  intro n r hr
  unfold focusChoice at hr
  split at hr <;> (try split at hr) <;>
    first
    | (obtain rfl := List.mem_singleton.mp hr; rfl)
    | simp at hr

theorem harmless_stealChoice : Harmless stealChoice := by
  intro n r hr
  unfold stealChoice at hr
  split at hr <;>
    first
    | (obtain rfl := List.mem_singleton.mp hr; rfl)
    | simp at hr

theorem harmless_moveChoice : Harmless (moveChoice S) := by
  intro n r hr
  have htarget : r ∈ moveFocusedToContainerOrWindow n.id → kind? r = none := by
    intro hr
    simp only [moveFocusedToContainerOrWindow, List.mem_cons, List.not_mem_nil, or_false] at hr
    rcases hr with rfl | rfl | rfl <;> rfl
  unfold moveChoice at hr
  split at hr
  · split at hr <;> · obtain rfl := List.mem_singleton.mp hr; rfl
  · split at hr
    · obtain rfl := List.mem_singleton.mp hr
      rfl
    · exact harmless_moveFocusedToWorkspace1 _ r hr
  · exact htarget hr
  · exact htarget hr
  · simp at hr

theorem harmless_swapChoice : Harmless swapChoice := by
  intro n r hr
  unfold swapChoice at hr
  split at hr <;>
    first
    | (obtain rfl := List.mem_singleton.mp hr; rfl)
    | simp at hr

theorem harmless_nil {α : Type} : Harmless (fun _ : α => []) := by
  intro a r hr
  simp at hr

/-- What a menu of nodes can lead to. -/
theorem mem_outgoing_run {r : SwayRequest} (hr : .request r ∈ outgoing (m.run S)) :
    (∃ d, S.select m.prompt m.choices = some (.ok d) ∧ r ∈ m.onChoice d.node) ∨
      ∃ t, r ∈ m.onInput t := by
  unfold NodeMenu.run at hr
  cases hselect : S.select m.prompt m.choices with
  | none => simp [hselect, outgoing] at hr
  | some answer =>
      rw [hselect] at hr
      obtain ⟨r', hr', heq⟩ := List.mem_map.mp hr
      obtain rfl := Outgoing.request.inj heq
      cases answer with
      | ok d => exact .inl ⟨d, rfl, hr'⟩
      | error t => exact .inr ⟨t, hr'⟩

/-- The menus: those of the quit commands, those that take a sway command, and
others. -/
theorem nodeMenu_cases (hmenu : nodeMenu S w cmd = some m) :
    (quits cmd = true ∧ ∃ kill, m.onChoice = quitChoice kill ∧ m.onInput = fun _ => []) ∨
      (takesSwayCommands cmd = true ∧ Harmless m.onChoice ∧
        m.onInput = handleNonMatchingInput S) ∨
      Harmless m.onChoice ∧ Harmless m.onInput := by
  have hsteal : Harmless stealChoice ∧ Harmless (fun _ : Text => []) :=
    ⟨harmless_stealChoice, harmless_nil⟩
  have hmove : Harmless (moveChoice S) ∧ Harmless (moveInput S) :=
    ⟨harmless_moveChoice, harmless_moveInput⟩
  -- The menus in the order of the dispatch: to switch or steal, to quit, to move, to swap.
  unfold nodeMenu at hmenu
  split at hmenu
  all_goals cases hmenu
  · exact .inr (.inl ⟨rfl, harmless_focusChoice, rfl⟩)
  · exact .inr (.inr hsteal)
  · exact .inr (.inr hsteal)
  · exact .inr (.inl ⟨rfl, harmless_focusChoice, rfl⟩)
  · exact .inr (.inl ⟨rfl, harmless_focusChoice, rfl⟩)
  · exact .inr (.inl ⟨rfl, harmless_focusChoice, rfl⟩)
  · exact .inr (.inl ⟨rfl, harmless_focusChoice, rfl⟩)
  · exact .inr (.inl ⟨rfl, harmless_focusChoice, rfl⟩)
  · exact .inl ⟨rfl, _, rfl, rfl⟩
  · exact .inl ⟨rfl, _, rfl, rfl⟩
  · exact .inl ⟨rfl, _, rfl, rfl⟩
  · exact .inr (.inr hmove)
  · exact .inr (.inr hmove)
  · exact .inr (.inr ⟨harmless_swapChoice, harmless_moveInput⟩)

theorem kind?_of_mem_focusOutgoing {res : Except Panic (Option Int)} {r : SwayRequest}
    (hr : .request r ∈ focusOutgoing res) : kind? r = none := by
  unfold focusOutgoing at hr
  split at hr
  · obtain rfl := Outgoing.request.inj (List.mem_singleton.mp hr)
    rfl
  · simp at hr
  · simp at hr

/-- A rearrangement is no request of a menu. -/
theorem not_mem_relayoutOutgoing
    {run : StateM (Kit.Session σ Layout.Command) (Option Layout.SwayError)} {r : SwayRequest} :
    .request r ∉ relayoutOutgoing C run := by
  intro hr
  obtain ⟨c, -, heq⟩ := List.mem_map.mp hr
  cases heq

/-- The output menus ask for nothing but commands picked from them. -/
theorem sway_of_mem_outputMenus {cmds : List Text} {rounds k : Nat} {rs : List SwayRequest}
    (hrs : outputMenus S cmds rounds k = some rs) : ∀ r ∈ rs, ∃ cmd, r = .sway cmd := by
  induction rounds generalizing k rs with
  | zero =>
      obtain rfl := Option.some.inj hrs
      simp
  | succ rounds ih =>
      rw [outputMenus, Option.bind_eq_bind, Option.bind_eq_some_iff] at hrs
      obtain ⟨answer, -, hrs⟩ := hrs
      cases answer with
      | error t =>
          obtain rfl := Option.some.inj hrs
          simp
      | ok cmd =>
          obtain ⟨rest, hrest, hrs⟩ := Option.bind_eq_some_iff.mp hrs
          obtain rfl := Option.some.inj hrs
          exact List.forall_mem_cons.mpr ⟨⟨cmd, rfl⟩, ih hrest⟩

/-- Sway commands chosen by the user are sent in the user's words. -/
theorem sway_of_mem_execSwaymsgCommand {rs : List SwayRequest}
    (hrs : execSwaymsgCommand S = some rs) : ∀ r ∈ rs, ∃ cmd, r = .sway cmd := by
  obtain ⟨answer, -, rfl⟩ := Option.map_eq_some_iff.mp hrs
  cases answer with
  | ok cmd => simp
  | error t => cases ht : t.isEmpty <;> simp [ht]

theorem sway_of_mem_outgoing {rs? : Option (List SwayRequest)}
    (h : ∀ rs, rs? = some rs → ∀ r ∈ rs, ∃ cmd, r = .sway cmd) {r : SwayRequest}
    (hr : .request r ∈ outgoing rs?) : ∃ cmd, r = .sway cmd := by
  cases rs? with
  | none => simp [outgoing] at hr
  | some rs =>
      obtain ⟨r', hr', heq⟩ := List.mem_map.mp hr
      obtain rfl := Outgoing.request.inj heq
      exact h rs rfl r' hr'

/-- Only the quit commands close anything, and only windows of the node that the
user picked; and only some menus take a sway command. -/
theorem kind_of_mem_runCommand {r : SwayRequest} {k : Kind}
    (hr : .request r ∈ runCommand E S C cmd w) (hk : kind? r = some k) :
    (quits cmd = true ∧ ∃ c m d, k = .quits c ∧ nodeMenu S w cmd = some m ∧
        S.select m.prompt m.choices = some (.ok d) ∧
        ∃ win ∈ d.node.preorder, win.getType = .window ∧ c.For win) ∨
      takesSwayCommands cmd = true ∧ ∃ text, r = .sway text := by
  have hnone : kind? r ≠ none := by simp [hk]
  cases hmenu : nodeMenu S w cmd with
  | some m =>
      rw [runCommand_nodeMenu E C hmenu] at hr
      rcases nodeMenu_cases hmenu with ⟨hquits, kill, hchoice, hinput⟩ |
        ⟨htakes, hchoice, hinput⟩ | ⟨hchoice, hinput⟩ <;>
        rcases mem_outgoing_run hr with ⟨d, hselect, hr⟩ | ⟨t, hr⟩
      · rw [hchoice] at hr
        obtain ⟨c, rfl, hwin⟩ := kind_of_mem_quitChoice hr hk
        exact .inl ⟨hquits, c, m, d, rfl, rfl, hselect, hwin⟩
      · rw [hinput] at hr
        cases hr
      · exact absurd (hchoice _ r hr) hnone
      · rw [hinput] at hr
        exact .inr ⟨htakes, (users_handleNonMatchingInput hr).resolve_left hnone⟩
      · exact absurd (hchoice _ r hr) hnone
      · exact absurd (hinput _ r hr) hnone
  | none =>
      cases cmd with
      | configureOutputs =>
          exact .inr ⟨rfl, sway_of_mem_outgoing (fun _ hrs => sway_of_mem_outputMenus hrs) hr⟩
      | executeSwaymsgCommand =>
          exact .inr
            ⟨rfl, sway_of_mem_outgoing (fun _ hrs => sway_of_mem_execSwaymsgCommand hrs) hr⟩
      -- no other arm sends a request of these kinds
      | nextWindow | prevWindow | nextTiledWindow | prevTiledWindow | nextTabbedOrStackedWindow
      | prevTabbedOrStackedWindow | nextFloatingWindow | prevFloatingWindow
      | nextWindowOfSameLayout | prevWindowOfSameLayout | nextMatchingWindow
      | prevMatchingWindow => exact absurd (kind?_of_mem_focusOutgoing hr) hnone
      | tileWorkspace | tabWorkspace | shuffleTileWorkspace =>
          exact absurd hr not_mem_relayoutOutgoing
      | toggleTabShuffleTileWorkspace floating =>
          rw [runCommand] at hr
          split at hr
          · exact absurd hr not_mem_relayoutOutgoing
          · simp at hr
      | nop | switchToUrgentOrLRUWindow | switchToAppOrUrgentOrLRUWindow
      | switchToMarkOrUrgentOrLRUWindow | switchToMatchingOrUrgentOrLRUWindow
      | executeSwayrCommand => cases hr
      | _ => cases hmenu

/-! ## The picked node -/

/-- All entries of a menu belong to one tree. -/
theorem tree_of_mem_asDisplayNodes {t : Tree} {v : List Node} {lvl : IndentLevel}
    {h : ∀ n ∈ v, n ∈ t.root.preorder} {d : DisplayNode} (hd : d ∈ t.asDisplayNodes v lvl h) :
    d.tree = t := by
  obtain ⟨n, -, rfl⟩ := List.mem_pmap.mp hd
  rfl

/-- The quit commands offer nodes of the tree that sway sends. -/
theorem mem_swayRoot_of_picked (hmenu : nodeMenu S w cmd = some m) (hquits : quits cmd = true)
    {d : DisplayNode} (hselect : S.select m.prompt m.choices = some (.ok d)) :
    d.node ∈ w.swayRoot.preorder := by
  have hmem : d ∈ m.choices := mem_of_selectFromMenu_ok hselect
  have htree : d.tree = w.tree true := by
    cases cmd with
    | quitWindow kill =>
        cases hmenu
        exact tree_of_mem_asDisplayNodes hmem
    | quitWorkspaceOrWindow =>
        cases hmenu
        exact showable_getWorkspacesAndWindows.tree d hmem
    | quitWorkspaceContainerOrWindow =>
        cases hmenu
        exact tree_of_mem_asDisplayNodes hmem
    | _ => cases hquits
  have hd := d.mem
  rw [htree] at hd
  exact hd

/-! ## No window twice -/

/-- What is closed by a request made to close it. -/
def quitting? : SwayRequest → Option Closing
  | .quitWindow id => some (.window id)
  | .killProcess pid => some (.process pid)
  | _ => none

theorem kind?_of_quitting? {r : SwayRequest} {c : Closing} (h : quitting? r = some c) :
    kind? r = some (.quits c) := by
  cases r with
  | quitWindow | killProcess => exact Option.some.inj h ▸ rfl
  | _ => cases h

def outgoingQuitting? : Outgoing → Option Closing
  | .request r => quitting? r
  | _ => none

/-- No window is closed twice for one choice, since no id occurs twice. -/
theorem quitting_quitChoice_nodup (kill : Bool) {n : Node} (h : DistinctIds n) :
    ((quitChoice kill n).filterMap quitting?).Nodup := by
  have hbelow : (((n.iter.filter (·.getType == .window)).map
      (fun win => SwayRequest.quitWindow win.id)).filterMap quitting?).Nodup := by
    have hclosings : ∀ wins : List Node,
        (wins.map (fun win => SwayRequest.quitWindow win.id)).filterMap quitting? =
          (wins.map Node.id).map Closing.window := by
      intro wins
      simp [List.filterMap_map, Function.comp_def, quitting?]
    rw [hclosings, Node.iter_eq_preorder]
    refine List.Nodup.map (fun a b hab => Closing.window.inj hab) ?_
    exact List.Nodup.sublist (List.filter_sublist.map _) h
  -- A workspace or container closes the windows below it, a window only itself.
  unfold quitChoice
  split
  · exact hbelow
  · exact hbelow
  · cases kill with
    | false => exact List.nodup_singleton _
    | true =>
        cases hpid : n.props.pid with
        | none => exact List.nodup_nil
        | some pid => exact List.nodup_singleton _
  · exact List.nodup_nil

theorem quitting_outgoing (rs : List SwayRequest) :
    (outgoing (some rs)).filterMap outgoingQuitting? = rs.filterMap quitting? := by
  simp [outgoing, List.filterMap_map, Function.comp_def, outgoingQuitting?]

/-- The two commands that quit are menus; what is typed there is ignored. -/
theorem nodeMenu_of_quits (hquits : quits cmd = true) :
    ∃ m kill, nodeMenu S w cmd = some m ∧ m.onChoice = quitChoice kill ∧
      m.onInput = fun _ => [] := by
  cases cmd with
  | quitWindow kill => exact ⟨_, kill, rfl, rfl, rfl⟩
  | quitWorkspaceOrWindow | quitWorkspaceContainerOrWindow => exact ⟨_, false, rfl, rfl, rfl⟩
  | _ => cases hquits

theorem quitting_runCommand_nodup :
    ((runCommand E S C cmd w).filterMap outgoingQuitting?).Nodup := by
  by_cases hquits : quits cmd = true
  · obtain ⟨m, kill, hmenu, hchoice, hinput⟩ := nodeMenu_of_quits (S := S) (w := w) hquits
    rw [runCommand_nodeMenu E C hmenu, NodeMenu.run, hchoice, hinput]
    cases S.select m.prompt m.choices with
    | none => exact List.nodup_nil
    | some answer =>
        rw [Option.map_some, quitting_outgoing]
        cases answer with
        | ok d => exact quitting_quitChoice_nodup kill (d.tree.distinct.subtree d.mem)
        | error input => exact List.nodup_nil
  · -- no closing request at all
    have hnone : (runCommand E S C cmd w).filterMap outgoingQuitting? = [] := by
      rw [List.filterMap_eq_nil_iff]
      intro o ho
      cases o with
      | relayout | panicked => rfl
      | request r =>
          cases hc : quitting? r with
          | none => exact hc
          | some c =>
              rcases kind_of_mem_runCommand ho (kind?_of_quitting? hc) with ⟨h, -⟩ | ⟨-, text, rfl⟩
              · exact absurd h hquits
              · cases hc
    rw [hnone]
    exact List.nodup_nil

end

/-! ## Whole runs -/

/-- The requests to close something among all that a command does. -/
def eventQuitting? : Event Outgoing → Option Closing
  | .other o => outgoingQuitting? o
  | _ => none

section

variable {σ : Type} (J : SerdeJson) (E : RegexEngine)

/-- What a command asks for is what its arm asks for. -/
theorem mem_execSwayrCmd {S : Surroundings} {C : SwayConnection σ} {w : World}
    {cmd : SwayrCommand} {s : CmdState} {o : Outgoing}
    (ho : .other o ∈ (execSwayrCmd E (runCommand E S C) w cmd s).2) :
    o ∈ runCommand E S C cmd w := by
  have hbegun : .other o ∉ (s.startActions cmd).map Event.switch ++ [.sent
      (if cmd.isPrevNextWindowVariant then .tickUpdateInhibit else .tickUpdateActivate)] := by
    simp
  have hother : .other o ∈ otherEvents (runCommand E S C) w cmd → o ∈ runCommand E S C cmd w := by
    intro ho
    unfold otherEvents at ho
    split at ho
    case h_7 =>
        obtain ⟨o', ho', heq⟩ := List.mem_map.mp ho
        exact Event.other.inj heq ▸ ho'
    all_goals cases ho
  -- A command that blocks on its menu has done no more than begin.
  unfold execSwayrCmd at ho
  cases hswitch : runSwitch E w cmd (s.startData cmd) with
  | none =>
      simp only [hswitch] at ho
      exact absurd ho hbegun
  | some r =>
      simp only [hswitch] at ho
      rcases List.mem_append.mp ho with ho | ho
      · rcases List.mem_append.mp ho with ho | ho
        · exact absurd ho hbegun
        · simp at ho
      · exact hother ho

/-- Switching closes nothing. -/
theorem quitting_map_switch (acts : List Cmds.Action) :
    (acts.map Event.switch).filterMap eventQuitting? = [] := by
  rw [List.filterMap_eq_nil_iff]
  intro e he
  obtain ⟨a, -, rfl⟩ := List.mem_map.mp he
  rfl

/-- A command closes what its menu closes, or nothing. -/
theorem quitting_execSwayrCmd {S : Surroundings} {C : SwayConnection σ} {w : World}
    (cmd : SwayrCommand) (s : CmdState) :
    (execSwayrCmd E (runCommand E S C) w cmd s).2.filterMap eventQuitting? = [] ∨
      (execSwayrCmd E (runCommand E S C) w cmd s).2.filterMap eventQuitting? =
        (runCommand E S C cmd w).filterMap outgoingQuitting? := by
  have hother : (otherEvents (runCommand E S C) w cmd).filterMap eventQuitting? = [] ∨
      (otherEvents (runCommand E S C) w cmd).filterMap eventQuitting? =
        (runCommand E S C cmd w).filterMap outgoingQuitting? := by
    have hmap : ∀ os : List Outgoing, (os.map Event.other).filterMap eventQuitting? =
        os.filterMap outgoingQuitting? := by
      intro os
      simp [List.filterMap_map, Function.comp_def, eventQuitting?]
    unfold otherEvents
    split
    case h_7 => exact .inr (hmap _)
    all_goals exact .inl rfl
  -- The reset before a command and the switch itself close nothing.
  unfold execSwayrCmd
  simp only
  cases runSwitch E w cmd (s.startData cmd) with
  | none =>
      left
      rw [List.filterMap_append, quitting_map_switch]
      rfl
  | some r =>
      rw [List.filterMap_append, List.filterMap_append, List.filterMap_append,
        quitting_map_switch, quitting_map_switch]
      exact hother

/-- What is done while a connection is served is done by the command it holds. -/
theorem emit_cases (s : Option CmdState) (i : Incoming × Scene σ) :
    (server J E).emit s i = [] ∨ ∃ received cmd s', i.1 = .stream received ∧
      requestedCommand J received = some cmd ∧
      (server J E).emit s i = (execSwayrCmd E (runCommand E i.2.2.1 i.2.2.2) i.2.1 cmd s').2 := by
  obtain ⟨received | _, w, S, C⟩ := i
  · simp only [Transducer.emit, server]
    cases hcmd : requestedCommand J received with
    | none => exact .inl rfl
    | some cmd =>
        cases s with
        | none => exact .inl rfl
        | some s => exact .inr ⟨received, cmd, s, rfl, hcmd, rfl⟩
  · exact .inl rfl

end

end Swayr.Theorems.ClosedOnRequest
