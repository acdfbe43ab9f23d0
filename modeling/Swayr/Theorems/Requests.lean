import Mathlib.Logic.Equiv.List
import Mathlib.Tactic.DeriveCountable
import Swayr.Daemon.Requests

/-!
# What clients send is what is executed

The text of a command is read back as that command, and no part of it is read as
any command. So the daemon executes the commands whose messages arrive whole, each
once and in the order of their connections, and nothing else, whatever becomes of
the clients. It does so until a connection cannot be accepted: that is its end.
-/

namespace Swayr.Theorems.Requests

open Cmds Kit Criteria Daemon Shared

/-! ## One message -/

variable (J : SerdeJson)

/-- A request that arrives is the one that was sent. -/
theorem requestedCommand_received (cmd : SwayrCommand) (f : Fate) :
    requestedCommand J (f.received J cmd) = if f.Arrives J cmd then some cmd else none := by
  cases f with
  | whole => exact J.fromStr_toString cmd
  | torn => rfl
  | cut k =>
      show J.fromStr ((J.toString cmd).take k) = _
      split
      · rename_i harrives
        have hall : (J.toString cmd).take k = J.toString cmd := List.take_of_length_le harrives
        rw [hall]
        exact J.fromStr_toString cmd
      · rename_i hcut
        refine J.fromStr_of_cut cmd _ (List.take_prefix k _) fun heq => hcut ?_
        have hlen := congrArg List.length heq
        rw [List.length_take] at hlen
        show (J.toString cmd).length ≤ k
        omega

/-! ## A run -/

/-- A connection: the command a client sends, what becomes of the message, and what
the daemon finds when it serves it. -/
structure Connection (σ : Type) where
  cmd : SwayrCommand
  fate : Fate
  scene : Scene σ

/-- What the loop over the connections meets. -/
inductive Turn (σ : Type)
  | connection (c : Connection σ)
  /-- `accept` fails. -/
  | failure (scene : Scene σ)

section run

variable {σ : Type} (E : RegexEngine)

def Turn.incoming : Turn σ → Incoming × Scene σ
  | connection c => (.stream (c.fate.received J c.cmd), c.scene)
  | failure scene => (.error, scene)

def Turn.connection? : Turn σ → Option (Connection σ)
  | connection c => some c
  | failure _ => none

/-- The connections before the first failure. -/
def accepted (ts : List (Turn σ)) : List (Connection σ) :=
  (ts.takeWhile fun t => t.connection?.isSome).filterMap Turn.connection?

/-- The commands that arrive whole, in the order of their connections. -/
def arrived (cs : List (Connection σ)) : List (SwayrCommand × Scene σ) :=
  (cs.filter fun c => c.fate.Arrives J c.cmd).map fun c => (c.cmd, c.scene)

/-- A connection is a command, or nothing. -/
theorem server_step (c : Connection σ) (s : Option CmdState) :
    (server J E).step s ((Turn.connection c).incoming J) =
      if c.fate.Arrives J c.cmd then (fullExecutor E).step s (c.cmd, c.scene) else (s, []) := by
  simp only [server, Turn.incoming, requestedCommand_received]
  by_cases h : c.fate.Arrives J c.cmd
  · simp [h]
  · simp [h]

/-- After its end the daemon does nothing. -/
theorem server_ended (is : List (Incoming × Scene σ)) :
    (server J E).run none is = none ∧ (server J E).outputs none is = [] := by
  have hstep : ∀ i : Incoming × Scene σ, (server J E).step none i = (none, []) := by
    rintro ⟨r | _, scene⟩
    · simp only [server]
      cases requestedCommand J r <;> rfl
    · rfl
  induction is with
  | nil => exact ⟨rfl, rfl⟩
  | cons i is ih =>
      have hnext : (server J E).next none i = none := congrArg Prod.fst (hstep i)
      have hemit : (server J E).emit none i = [] := congrArg Prod.snd (hstep i)
      rw [Transducer.run_cons, Transducer.outputs_cons, hnext, hemit]
      exact ih

end run

/-! ## What is asked of the crate -/

instance countableString : Countable String :=
  Function.Injective.countable (f := fun s : String => s.toList.map Char.toNat) fun _ _ h =>
    String.toList_inj.mp (List.map_injective_iff.mpr (fun _ _ => Char.toNat_inj.mp) h)

deriving instance Countable for ConsiderWindows, ConsiderFloating, SwayrCommand

/-- Commands can be written so that they are read back and no part is read: by as many
blanks as their number, and a stroke. -/
theorem nonempty_serdeJson : Nonempty SerdeJson := by
  classical
  obtain ⟨number, hnumber⟩ := Countable.exists_injective_nat SwayrCommand
  let write : SwayrCommand → Text := fun cmd => List.replicate (number cmd) ' ' ++ ['|']
  have hwrite : Function.Injective write := by
    intro a b h
    have hlen := congrArg List.length h
    simp only [write, List.length_append, List.length_replicate, List.length_singleton,
      Nat.add_right_cancel_iff] at hlen
    exact hnumber hlen
  refine ⟨write, Function.partialInv write, fun cmd => Function.partialInv_left hwrite cmd, ?_⟩
  intro cmd p hp hcut
  rw [Function.partialInv, dif_neg]
  rintro ⟨cmd', rfl⟩
  -- the stroke would be among the blanks
  obtain ⟨rest, hrest⟩ := hp
  rcases List.eq_nil_or_concat rest with rfl | ⟨front, c, rfl⟩
  · exact hcut (by simpa using hrest)
  · rw [List.concat_eq_append, ← List.append_assoc] at hrest
    have hblanks := (List.append_inj' hrest rfl).1
    have hmem : '|' ∈ List.replicate (number cmd) ' ' := hblanks ▸ by simp [write]
    exact absurd (List.eq_of_mem_replicate hmem) (by decide)

end Swayr.Theorems.Requests
