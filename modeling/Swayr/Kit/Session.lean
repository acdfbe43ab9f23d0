import Mathlib

/-!
# Sessions

A program that sends commands to a peer over a connection: each command changes
the peer's state and succeeds or fails, and the first failure ends the program.
The commands sent are recorded. What holds after a program has run to its end is
stated as a triple of `Std.Do`. What is sent on the way, failure or not, is
bounded by `SendsOnly`; `Follows` says in which order. A program that ignores
failures sends the same commands to every peer, which is stated by `Emits`, as is
what other programs send to a peer that never fails.
-/

namespace Kit

open Std.Do

/-- A peer with states `σ` that executes commands `γ`. -/
structure Peer (σ γ ε : Type) where
  exec : γ → σ → Except ε Unit × σ

/-- The peer's state and the commands sent so far. -/
structure Session (σ γ : Type) where
  state : σ
  sent : List γ

/-- Programs over a session that may fail. -/
abbrev SessionM (σ γ ε : Type) := ExceptT ε (StateM (Session σ γ))

variable {σ γ ε α : Type}

/-- Send a command and go on if it succeeds. -/
def Peer.send (P : Peer σ γ ε) (c : γ) : SessionM σ γ ε Unit := do
  let s ← get
  set (⟨(P.exec c s.state).2, s.sent ++ [c]⟩ : Session σ γ)
  match (P.exec c s.state).1 with
  | .ok _ => pure ()
  | .error e => throw e

theorem Peer.exec_eq_of_ok {P : Peer σ γ ε} {c : γ} {s : σ} {a : Unit}
    (h : (P.exec c s).1 = .ok a) : P.exec c s = (.ok (), (P.exec c s).2) :=
  Prod.ext h rfl

/-! Runs, one bind at a time. -/

/-- A computation that succeeds hands its value and state on. -/
theorem bind_apply {β : Type} {x : SessionM σ γ ε α} (k : α → SessionM σ γ ε β)
    {s t : Session σ γ} {a : α} (h : x s = (.ok a, t)) : (x >>= k) s = k a t := by
  show (ExceptT.bindCont k (x s).1) (x s).2 = _
  rw [h]
  rfl

/-- An error ends the session. -/
theorem bind_apply_error {β : Type} {x : SessionM σ γ ε α} (k : α → SessionM σ γ ε β)
    {s t : Session σ γ} {e : ε} (h : x s = (.error e, t)) : (x >>= k) s = (.error e, t) := by
  show (ExceptT.bindCont k (x s).1) (x s).2 = _
  rw [h]
  rfl

/-- A command is recorded whether the peer refuses it or not. -/
theorem Peer.send_apply (P : Peer σ γ ε) (c : γ) (s : Session σ γ) :
    P.send c s = ((P.exec c s.state).1, ⟨(P.exec c s.state).2, s.sent ++ [c]⟩) := by
  refine (bind_apply (x := get) _ rfl).trans ?_
  refine (bind_apply (x := set _) _ rfl).trans ?_
  cases (P.exec c s.state).1 <;> rfl

/-- The weakest precondition, read off a run. -/
theorem wp_session_apply (x : SessionM σ γ ε α)
    (Q : PostCond α (.except ε (.arg (Session σ γ) .pure))) (s : Session σ γ) :
    wp⟦x⟧ Q s = match x s with
      | (.ok a, t) => Q.1 a t
      | (.error e, t) => Q.2.1 e t := by
  cases h : x s with
  | mk r t =>
      have hrun : (x.run.run s).run = (r, t) := h
      cases r <;> simp [WP.wp, hrun]

/-- What a triple says about a run that comes to its end. -/
theorem of_triple {x : SessionM σ γ ε α} {P : Session σ γ → Prop}
    {Q : α → Session σ γ → Prop} (h : ⦃fun s => ⌜P s⌝⦄ x ⦃⇓? a s => ⌜Q a s⌝⦄)
    {s t : Session σ γ} {a : α} (hs : P s) (hrun : x s = (.ok a, t)) : Q a t := by
  have hwp := Triple.iff.mp h s hs
  rw [wp_session_apply, hrun] at hwp
  exact hwp

/-! ## What is sent on the way -/

/-- From every session, the program sends only commands that satisfy `Q`, also if
it fails. A result satisfies `J`. -/
structure SendsOnly (Q : γ → Prop) (J : α → Prop) (x : SessionM σ γ ε α) : Prop where
  sent : ∀ s, ∃ cs, (x s).2.sent = s.sent ++ cs ∧ ∀ c ∈ cs, Q c
  result : ∀ s a, (x s).1 = .ok a → J a

namespace SendsOnly

variable {β : Type} {Q : γ → Prop} {J : α → Prop} {K : β → Prop}

theorem pure {a : α} (h : J a) : SendsOnly Q J (Pure.pure a : SessionM σ γ ε α) where
  sent s := ⟨[], (List.append_nil _).symm, by simp⟩
  result s b hb := Except.ok.inj hb ▸ h

theorem throw (e : ε) : SendsOnly Q J (MonadExcept.throw e : SessionM σ γ ε α) where
  sent s := ⟨[], (List.append_nil _).symm, by simp⟩
  result s b hb := by cases hb

theorem send (P : Peer σ γ ε) {c : γ} (h : Q c) : SendsOnly Q (fun _ => True) (P.send c) where
  sent s := ⟨[c], by rw [P.send_apply], by simpa using h⟩
  result _ _ _ := trivial

/-- The second part may rely on what the first is known to return. -/
theorem bind {x : SessionM σ γ ε α} {f : α → SessionM σ γ ε β} (hx : SendsOnly Q J x)
    (hf : ∀ a, J a → SendsOnly Q K (f a)) : SendsOnly Q K (x >>= f) := by
  have hcases : ∀ s, (∃ e, (x s).1 = .error e ∧ (x >>= f) s = (.error e, (x s).2)) ∨
      ∃ a, J a ∧ (x >>= f) s = f a (x s).2 := by
    intro s
    cases h : (x s).1 with
    | error e => exact .inl ⟨e, rfl, bind_apply_error f (Prod.ext h rfl)⟩
    | ok a => exact .inr ⟨a, hx.result s a h, bind_apply f (Prod.ext h rfl)⟩
  constructor
  · intro s
    obtain ⟨cs, hsent, hcs⟩ := hx.sent s
    rcases hcases s with ⟨e, -, heq⟩ | ⟨a, ha, heq⟩
    · exact ⟨cs, by rw [heq, hsent], hcs⟩
    · obtain ⟨cs', hsent', hcs'⟩ := (hf a ha).sent (x s).2
      refine ⟨cs ++ cs', by rw [heq, hsent', hsent, List.append_assoc], ?_⟩
      intro c hc
      exact (List.mem_append.mp hc).elim (hcs c) (hcs' c)
  · intro s b hb
    rcases hcases s with ⟨e, -, heq⟩ | ⟨a, ha, heq⟩
    · rw [heq] at hb
      cases hb
    · rw [heq] at hb
      exact (hf a ha).result _ b hb

/-- A loop with the invariant `J`. -/
theorem forIn {l : List β} {f : β → α → SessionM σ γ ε (ForInStep α)} {a : α} (ha : J a)
    (hf : ∀ b ∈ l, ∀ a, J a → SendsOnly Q (fun r => J r.value) (f b a)) :
    SendsOnly Q J (ForIn.forIn l a f) := by
  induction l generalizing a with
  | nil => exact pure ha
  | cons b l ih =>
      rw [List.forIn_cons]
      refine (hf b List.mem_cons_self a ha).bind ?_
      intro r hr
      cases r with
      | done a' => exact pure hr
      | yield a' => exact ih hr fun b' hb' => hf b' (List.mem_cons_of_mem b hb')

end SendsOnly

/-! ## Scripts -/

/-- From every session, the program sends `cs` and ends with `a`, or it fails and
has sent the first commands of `cs`. -/
def Follows (x : SessionM σ γ ε α) (cs : List γ) (a : α) : Prop :=
  ∀ s, (∃ t, x s = (.ok a, t) ∧ t.sent = s.sent ++ cs) ∨
    ∃ e t sent, x s = (.error e, t) ∧ t.sent = s.sent ++ sent ∧ sent <+: cs

namespace Follows

variable {β : Type}

theorem pure (a : α) : Follows (Pure.pure a : SessionM σ γ ε α) [] a :=
  fun s => .inl ⟨s, rfl, (List.append_nil _).symm⟩

theorem send (P : Peer σ γ ε) (c : γ) : Follows (P.send c) [c] () := by
  intro s
  rw [P.send_apply]
  cases (P.exec c s.state).1 with
  | ok _ => exact .inl ⟨_, rfl, rfl⟩
  | error e => exact .inr ⟨e, _, [c], rfl, rfl, List.prefix_refl _⟩

/-- Scripts are followed one behind the other. -/
theorem bind {x : SessionM σ γ ε α} {f : α → SessionM σ γ ε β} {cs cs' : List γ} {a : α} {b : β}
    (hx : Follows x cs a) (hf : Follows (f a) cs' b) : Follows (x >>= f) (cs ++ cs') b := by
  intro s
  rcases hx s with ⟨t, ht, hsent⟩ | ⟨e, t, sent, ht, hsent, hpre⟩
  · rw [bind_apply f ht]
    rcases hf t with ⟨u, hu, hsent'⟩ | ⟨e, u, sent', hu, hsent', hpre'⟩
    · exact .inl ⟨u, hu, by rw [hsent', hsent, List.append_assoc]⟩
    · refine .inr ⟨e, u, cs ++ sent', hu, ?_, (List.prefix_append_right_inj cs).mpr hpre'⟩
      rw [hsent', hsent, List.append_assoc]
  · rw [bind_apply_error f ht]
    exact .inr ⟨e, t, sent, rfl, hsent, hpre.trans (List.prefix_append _ _)⟩

theorem bind_pure {x : SessionM σ γ ε α} {cs : List γ} {a : α} (hx : Follows x cs a) (b : β) :
    Follows (x >>= fun _ => Pure.pure b) cs b := by
  have h := hx.bind (f := fun _ => Pure.pure b) (pure b)
  rwa [List.append_nil] at h

/-- A loop over the variables `b`. -/
theorem forIn {l : List α} {f : α → β → SessionM σ γ ε (ForInStep β)} {g : α → List γ}
    {k : α → β → β} (h : ∀ a ∈ l, ∀ b, Follows (f a b) (g a) (.yield (k a b))) (b : β) :
    Follows (ForIn.forIn l b f) (l.flatMap g) (l.foldl (fun b a => k a b) b) := by
  induction l generalizing b with
  | nil => exact pure b
  | cons a l ih =>
      rw [List.forIn_cons, List.flatMap_cons]
      exact (h a List.mem_cons_self b).bind (ih (fun a' ha' => h a' (List.mem_cons_of_mem a ha')) _)

/-- A loop at the end of a block. -/
theorem for_pure {l : List α} {f : α → β → SessionM σ γ ε (ForInStep β)} {g : α → List γ}
    {k : α → β → β} (h : ∀ a ∈ l, ∀ b, Follows (f a b) (g a) (.yield (k a b))) (b : β) {δ : Type}
    (d : δ) : Follows (ForIn.forIn l b f >>= fun _ => Pure.pure d) (l.flatMap g) d :=
  (forIn h b).bind_pure d

end Follows

/-! ## Programs that ignore failures -/

/-- The session after commands have been sent, whatever became of them. -/
def Session.after (P : Peer σ γ ε) (s : Session σ γ) (cs : List γ) : Session σ γ :=
  cs.foldl (fun s c => ⟨(P.exec c s.state).2, s.sent ++ [c]⟩) s

theorem Session.after_append (P : Peer σ γ ε) (s : Session σ γ) (cs cs' : List γ) :
    s.after P (cs ++ cs') = (s.after P cs).after P cs' :=
  List.foldl_append

/-- A script is sent as it is. -/
theorem Session.sent_after (P : Peer σ γ ε) (s : Session σ γ) (cs : List γ) :
    (s.after P cs).sent = s.sent ++ cs := by
  induction cs generalizing s with
  | nil => simp [after]
  | cons c cs ih =>
      rw [after, List.foldl_cons, ← after, ih]
      simp

variable {δ β : Type}

/-- Send a command and go on whether it succeeds or not. -/
def Peer.trySend (P : Peer σ γ ε) (c : γ) : SessionM σ γ δ Unit := do
  match ← (P.send c).run with
  | .ok _ => pure ()
  | .error _ => pure ()

/-- From every session, the program sends `cs` and ends with `r`. -/
def Emits (P : Peer σ γ ε) (x : SessionM σ γ δ α) (cs : List γ) (r : Except δ α) : Prop :=
  ∀ s, x s = (r, s.after P cs)

namespace Emits

variable {P : Peer σ γ ε}

theorem pure (a : α) : Emits P (Pure.pure a : SessionM σ γ δ α) [] (.ok a) := fun _ => rfl

theorem throw (e : δ) : Emits P (MonadExcept.throw e : SessionM σ γ δ α) [] (.error e) :=
  fun _ => rfl

/-- An answer that is ignored: the session goes on in either case. -/
theorem trySend (c : γ) : Emits P (P.trySend c : SessionM σ γ δ Unit) [c] (.ok ()) := by
  intro s
  refine (bind_apply (x := liftM (P.send c).run) _ (a := (P.send c s).1) rfl).trans ?_
  rw [P.send_apply]
  cases (P.exec c s.state).1 <;> rfl

/-- Scripts are sent one behind the other, as long as there is no error. -/
theorem bind {x : SessionM σ γ δ α} {f : α → SessionM σ γ δ β} {cs cs' : List γ} {a : α}
    {r : Except δ β} (hx : Emits P x cs (.ok a)) (hf : Emits P (f a) cs' r) :
    Emits P (x >>= f) (cs ++ cs') r := by
  intro s
  rw [bind_apply f (hx s), hf, Session.after_append]

/-- What stands behind an error is not sent. -/
theorem bind_error {x : SessionM σ γ δ α} {f : α → SessionM σ γ δ β} {cs : List γ} {e : δ}
    (hx : Emits P x cs (.error e)) : Emits P (x >>= f) cs (.error e) := by
  intro s
  rw [bind_apply_error f (hx s)]

/-- To a peer that never fails. -/
theorem send (hP : ∀ c s, (P.exec c s).1 = .ok ()) (c : γ) :
    Emits P (P.send c) [c] (.ok ()) := by
  intro s
  rw [P.send_apply, hP]
  rfl

/-- A loop that runs to its end, over the variables `b`. -/
theorem forIn_state {l : List α} {f : α → β → SessionM σ γ δ (ForInStep β)} {g : α → List γ}
    {k : α → β → β} (h : ∀ a ∈ l, ∀ b, Emits P (f a b) (g a) (.ok (.yield (k a b)))) (b : β) :
    Emits P (ForIn.forIn l b f) (l.flatMap g) (.ok (l.foldl (fun b a => k a b) b)) := by
  induction l generalizing b with
  | nil => exact pure b
  | cons a l ih =>
      rw [List.forIn_cons, List.flatMap_cons]
      exact (h a List.mem_cons_self b).bind (ih (fun a' ha' => h a' (List.mem_cons_of_mem a ha')) _)

/-- A loop that runs to its end. -/
theorem forIn {l : List α} {f : α → PUnit → SessionM σ γ δ (ForInStep PUnit)}
    {g : α → List γ} (h : ∀ a ∈ l, Emits P (f a ⟨⟩) (g a) (.ok (.yield ⟨⟩))) :
    Emits P (ForIn.forIn l PUnit.unit f) (l.flatMap g) (.ok PUnit.unit) :=
  forIn_state (fun a ha _ => h a ha) PUnit.unit

/-- A loop at the end of a block. -/
theorem for_pure {l : List α} {f : α → PUnit → SessionM σ γ δ (ForInStep PUnit)} {g : α → List γ}
    (h : ∀ a ∈ l, Emits P (f a ⟨⟩) (g a) (.ok (.yield ⟨⟩))) (b : β) :
    Emits P (ForIn.forIn l PUnit.unit f >>= fun _ => Pure.pure b) (l.flatMap g) (.ok b) := by
  have hloop := (forIn h).bind (f := fun _ => Pure.pure b) (pure b)
  rwa [List.append_nil] at hloop

/-- A loop that ends with an error. -/
theorem forIn_error {l l' : List α} {a : α} {f : α → PUnit → SessionM σ γ δ (ForInStep PUnit)}
    {g : α → List γ} {e : δ} (h : ∀ b ∈ l, Emits P (f b ⟨⟩) (g b) (.ok (.yield ⟨⟩)))
    (ha : Emits P (f a ⟨⟩) [] (.error e)) :
    Emits P (ForIn.forIn (l ++ a :: l') PUnit.unit f) (l.flatMap g) (.error e) := by
  induction l with
  | nil =>
      rw [List.nil_append, List.forIn_cons]
      exact ha.bind_error
  | cons b l ih =>
      rw [List.cons_append, List.forIn_cons, List.flatMap_cons]
      exact (h b List.mem_cons_self).bind (ih fun b' hb => h b' (List.mem_cons_of_mem b hb))

/-- What is sent is bounded by what the program is known to send. -/
theorem sendsOnly {x : SessionM σ γ δ α} {cs : List γ} {r : Except δ α} (h : Emits P x cs r)
    {Q : γ → Prop} (hcs : ∀ c ∈ cs, Q c) : SendsOnly Q (fun _ => True) x where
  sent s := ⟨cs, by rw [h s, Session.sent_after], hcs⟩
  result _ _ _ := trivial

end Emits

end Kit
