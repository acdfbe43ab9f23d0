import Swayr.Kit.PegInput
import Swayr.Theorems.CriteriaSpelling

/-!
# Every criteria query that is accepted is well formed

The grammar accepts more than the manual documents. `Accepts c s` says that `s` is
written as `c`, without reference to the order in which alternatives are tried: in a
documented spelling, or beyond them with elements of a list that are not separated,
blanks behind the closing bracket and behind an operand of `not`, and patterns that
are no regex, which stand for the one that never matches. `accepted_is_written` shows
that `parse` accepts nothing else and that its result is the query written; whether it
accepts all of it is left open.
-/

namespace Swayr.Theorems.CriteriaAccepted

open Kit.Peg Kit.Peg.Rule Criteria CriteriaSpelling

variable {E : RegexEngine}

/-! ## What is accepted -/

/-- Any text in quotes will do for a regex. -/
inductive ReadsRegex : RegexOrFocused E → List Char → Prop
  | regex {t : List Char} : '"' ∉ t →
      ReadsRegex (.regex (regexFromStr E (String.ofList t))) ('"' :: (t ++ ['"']))
  | focused : ReadsRegex .focused "__focused__".toList

/-- The simple criteria. -/
inductive AcceptsSimple : Criterion E → List Char → Prop
  | tiling : AcceptsSimple .tiling "tiling".toList
  | floating : AcceptsSimple .floating "floating".toList
  | appId {v : RegexOrFocused E} {t s : List Char} : ReadsRegex v t →
      SpellsField "app_id" t s → AcceptsSimple (.appId v) s
  | class_ {v : RegexOrFocused E} {t s : List Char} : ReadsRegex v t →
      SpellsField "class" t s → AcceptsSimple (.class_ v) s
  | instance_ {v : RegexOrFocused E} {t s : List Char} : ReadsRegex v t →
      SpellsField "instance" t s → AcceptsSimple (.instance_ v) s
  | appName {v : RegexOrFocused E} {t s : List Char} : ReadsRegex v t →
      SpellsField "app_name" t s → AcceptsSimple (.appName v) s
  | title {v : RegexOrFocused E} {t s : List Char} : ReadsRegex v t →
      SpellsField "title" t s → AcceptsSimple (.title v) s
  | workspace {v : RegexOrFocused E} {t s : List Char} : ReadsRegex v t →
      SpellsField "workspace" t s → AcceptsSimple (.workspace v) s
  | conMark {rx : Regex E} {t s : List Char} : ReadsRegex (.regex rx) t →
      SpellsField "con_mark" t s → AcceptsSimple (.conMark rx) s
  | conId {v : I64OrFocused} {t s : List Char} : SpellsI64 v t →
      SpellsField "con_id" t s → AcceptsSimple (.conId v) s
  | pid {n : I32} {t s : List Char} : SpellsInt n.1 t →
      SpellsField "pid" t s → AcceptsSimple (.pid n) s
  | shell {v : ShellTypeOrFocused} {t s : List Char} : SpellsShell v t →
      SpellsField "shell" t s → AcceptsSimple (.shell v) s

/-- A list in brackets behind its keyword, with blanks anywhere between. -/
def bracketed (kw : String) (b₁ b₂ s b₃ b₄ : List Char) : List Char :=
  "[".toList ++ (b₁ ++ (kw.toList ++ (b₂ ++ (s ++ (b₃ ++ ("]".toList ++ b₄))))))

inductive Accepts : Criterion E → List Char → Prop
  | simple {c : Criterion E} {s : List Char} : AcceptsSimple c s → Accepts c s
  | and {cs : List (Criterion E)} {kw : String} {b₁ b₂ s b₃ b₄ : List Char} :
      kw ∈ "" :: andKeywords → Blanks b₁ → Blanks b₂ → Blanks b₃ → Blanks b₄ →
      Separated Accepts Blanks cs s → Accepts (.and cs) (bracketed kw b₁ b₂ s b₃ b₄)
  | or {cs : List (Criterion E)} {kw : String} {b₁ b₂ s b₃ b₄ : List Char} :
      kw ∈ orKeywords → Blanks b₁ → Blanks b₂ → Blanks b₃ → Blanks b₄ →
      Separated Accepts Blanks cs s → Accepts (.or cs) (bracketed kw b₁ b₂ s b₃ b₄)
  | not {c : Criterion E} {kw : String} {b s b' : List Char} : kw ∈ notKeywords →
      Blanks b → Blanks b' → Accepts c s → Accepts (.not c) (kw.toList ++ (b ++ (s ++ b')))

/-! ## Lexical rules -/

theorem writes_lit (s : String) : Writes (fun _ t => t = s.toList) (lit s) := .text _

/-- A keyword that stands for one value. -/
theorem writes_word {α : Type} {W : α → List Char → Prop} {s : String} {a : α}
    (h : W a s.toList) : Writes W (do lit s; pure a : Rule α) :=
  .bind (writes_lit s) fun _ t ht => .pure (by rwa [ht, List.append_nil])

theorem writes_space : Writes (fun _ b => Blanks b) space :=
  .bind (.star isBlank) fun _ b hb => .pure (by rw [List.append_nil, hb.1]; exact hb.2)

/-- A string is what stands between two quotes. -/
theorem writes_stringLiteral :
    Writes (fun v s => ∃ t, '"' ∉ t ∧ v = String.ofList t ∧ s = '"' :: (t ++ ['"']))
      stringLiteral := by
  refine .bind (writes_lit _) fun _ q hq => .bind (.star _) fun t s hs =>
    .bind (writes_lit _) fun _ q' hq' => .pure ⟨t, ?_, rfl, ?_⟩
  · intro hmem
    simpa using hs.2 _ hmem
  · rw [hq, hs.1, hq', List.append_nil]
    rfl

/-- A sign, if any, and digits. -/
theorem writes_intLiteral : Writes SpellsInt intLiteral := by
  refine .bind (.opt (writes_lit "-")) fun sign s hs => .bind (.plus _) fun ds t ht => .pure ?_
  obtain ⟨rfl, hne, hdigits⟩ := ht
  rw [List.append_nil]
  rcases hs with ⟨rfl, rfl⟩ | ⟨_, rfl, rfl⟩
  · exact .nonneg t hne hdigits
  · exact .neg t hne hdigits

theorem writes_i32Literal : Writes (fun n s => SpellsInt n.1 s) i32Literal :=
  writes_intLiteral.mapOption.mono fun n s ⟨k, hk, hs⟩ => by
    split at hk
    · obtain rfl := Option.some.inj hk
      exact hs
    · cases hk

theorem writes_i64Literal : Writes (fun n s => SpellsInt n.1 s) i64Literal :=
  writes_intLiteral.mapOption.mono fun n s ⟨k, hk, hs⟩ => by
    split at hk
    · obtain rfl := Option.some.inj hk
      exact hs
    · cases hk

theorem writes_regexOrFocused :
    Writes ReadsRegex (regexOrFocused : Rule (RegexOrFocused E)) := by
  refine .choice (writes_word .focused) (.bind writes_stringLiteral fun v s hs => .pure ?_)
  obtain ⟨t, ht, rfl, rfl⟩ := hs
  rw [List.append_nil]
  exact .regex ht

theorem writes_i64OrFocused : Writes SpellsI64 i64OrFocused :=
  .choice (writes_word .focused) <|
    .bind writes_i64Literal fun n s hs => .pure (by rw [List.append_nil]; exact .i64 hs)

theorem writes_shellTypeOrFocused : Writes SpellsShell shellTypeOrFocused :=
  .choice (writes_word .xdgShell) (.choice (writes_word .xwayland) (writes_word .focused))

/-! ## Criteria -/

/-- A key, an equals sign and a value, with blanks around the sign. -/
theorem writes_keyValue {α : Type} {V : α → List Char → Prop} {W : Criterion E → List Char → Prop}
    {name : String} {value : Rule α} {mk : α → Criterion E} (hv : Writes V value)
    (hW : ∀ v t s, V v t → SpellsField name t s → W (mk v) s) :
    Writes W (keyValue name value mk) := by
  refine .bind (writes_lit name) fun _ k hk => .bind writes_space fun _ b₁ hb₁ =>
    .bind (writes_lit "=") fun _ e he => .bind writes_space fun _ b₂ hb₂ =>
    .bind hv fun v t ht => .pure ?_
  rw [hk, he, List.append_nil]
  exact hW v t _ ht (.mk hb₁ hb₂)

/-- Each of the alternatives, in the order of the grammar. -/
theorem writes_simple : Writes AcceptsSimple (simple : Rule (Criterion E)) := by
  have hrof := writes_regexOrFocused (E := E)
  unfold simple
  refine .choice (writes_word .tiling) <| .choice (writes_word .floating) <|
    .choice ?_ <| .choice ?_ <| .choice ?_ <| .choice ?_ <| .choice ?_ <| .choice ?_ <|
    .choice ?_ <| .choice ?_ <| .choice ?_ ?_
  · exact writes_keyValue hrof fun _ _ _ => .appId
  · exact writes_keyValue hrof fun _ _ _ => .class_
  · exact writes_keyValue hrof fun _ _ _ => .instance_
  · exact writes_keyValue hrof fun _ _ _ => .appName
  · exact writes_keyValue hrof fun _ _ _ => .title
  · exact writes_keyValue writes_shellTypeOrFocused fun _ _ _ => .shell
  · exact writes_keyValue hrof fun _ _ _ => .workspace
  · refine writes_keyValue writes_stringLiteral ?_
    rintro v t s ⟨u, hu, rfl, rfl⟩ hs
    exact .conMark (.regex hu) hs
  · exact writes_keyValue writes_i64OrFocused fun _ _ _ => .conId
  · exact writes_keyValue writes_i32Literal fun _ _ _ => .pid

/-- A keyword in one of its three forms. -/
theorem writes_keyword (a b c : String) :
    Writes (fun _ t => ∃ kw ∈ [a, b, c], t = kw.toList)
      (choice (lit a) (choice (lit b) (lit c))) :=
  .choice ((writes_lit a).mono fun _ t ht => ⟨a, by simp, ht⟩) <|
    .choice ((writes_lit b).mono fun _ t ht => ⟨b, by simp, ht⟩)
      ((writes_lit c).mono fun _ t ht => ⟨c, by simp, ht⟩)

/-- The elements and the closing bracket. -/
theorem writes_listRest {R : Criterion E → List Char → Prop} {p : Rule (Criterion E)}
    (hp : Writes R p) :
    Writes (fun cs t => ∃ b₁ s b₂ b₃, Blanks b₁ ∧ Blanks b₂ ∧ Blanks b₃ ∧
        Separated R Blanks cs s ∧ t = b₁ ++ (s ++ (b₂ ++ ("]".toList ++ b₃))))
      (listRest p) := by
  refine .bind writes_space fun _ b₁ hb₁ => .bind (.sepBy hp writes_space) fun l s hs =>
    .bind writes_space fun _ b₂ hb₂ => .bind (writes_lit "]") fun _ e he =>
    .bind writes_space fun _ b₃ hb₃ => .pure ⟨b₁, s, b₂, b₃, hb₁, hb₂, hb₃, hs, ?_⟩
  rw [he, List.append_nil]

/-- One case per alternative of the rule `criterion`, by induction on the bound of the
recursion. -/
theorem writes_criterion (fuel : Nat) :
    Writes Accepts (criterion fuel : Rule (Criterion E)) := by
  induction fuel with
  | zero => exact .fail
  | succ fuel ih =>
      rw [criterion]
      -- Ordered choice: each alternative accepts only what the grammar has for it.
      -- Only the lists and `not` use the hypothesis for less fuel.
      refine .choice ?and <| .choice ?or <| .choice ?not (writes_simple.mono fun _ _ => .simple)
      case and =>
          refine .bind (writes_lit "[") fun _ o ho => .bind writes_space fun _ b hb =>
            .bind (.opt (writes_keyword "AND" "and" "&&")) fun kw k hk =>
            .bind (writes_listRest ih) fun l t ht => .pure ?_
          obtain ⟨b₂, s, b₃, b₄, hb₂, hb₃, hb₄, hs, rfl⟩ := ht
          rw [ho, List.append_nil]
          -- The keyword of an `and` list may be missing.
          obtain ⟨kw, hkw, rfl⟩ : ∃ kw ∈ "" :: andKeywords, k = kw.toList := by
            rcases hk with ⟨-, rfl⟩ | ⟨_, -, kw, hkw, rfl⟩
            · exact ⟨"", List.mem_cons_self, rfl⟩
            · exact ⟨kw, List.mem_cons_of_mem _ hkw, rfl⟩
          exact .and hkw hb hb₂ hb₃ hb₄ hs
      case or =>
          refine .bind (writes_lit "[") fun _ o ho => .bind writes_space fun _ b hb =>
            .bind (writes_keyword "OR" "or" "||") fun _ k hk =>
            .bind (writes_listRest ih) fun l t ht => .pure ?_
          obtain ⟨b₂, s, b₃, b₄, hb₂, hb₃, hb₄, hs, rfl⟩ := ht
          obtain ⟨kw, hkw, rfl⟩ := hk
          rw [ho, List.append_nil]
          exact .or hkw hb hb₂ hb₃ hb₄ hs
      case not =>
          refine .bind (writes_keyword "NOT" "not" "!") fun _ k hk =>
            .bind writes_space fun _ b hb => .bind ih fun c s hs =>
            .bind writes_space fun _ b' hb' => .pure ?_
          obtain ⟨kw, hkw, rfl⟩ := hk
          rw [List.append_nil]
          exact .not hkw hb hb' hs

/-- The whole text is read. -/
theorem accepts_of_parse {inp : List Char} {c : Criterion E} (h : parse inp = some c) :
    ∃ b s, inp = b ++ s ∧ Blanks b ∧ Accepts c s := by
  have hrule : Writes (fun c t => ∃ b s, t = b ++ s ∧ Blanks b ∧ Accepts c s)
      (do space; criterion (inp.length + 1) : Rule (Criterion E)) :=
    .bind writes_space fun _ b hb => (writes_criterion _).mono fun c s hs => ⟨b, s, rfl, hb, hs⟩
  unfold parse at h
  split at h
  · next c' heq =>
      obtain rfl := Option.some.inj h
      obtain ⟨piece, hpiece, hwritten⟩ := hrule inp c' [] heq
      rwa [hpiece, List.append_nil]
  · cases h

/-- A documented spelling is accepted, and has no blanks in front. -/
theorem accepts_of_spells {c : Criterion E} {s : List Char} (h : Spells c s) : Accepts c s := by
  obtain ⟨b, t, rfl, hb, ht⟩ := accepts_of_parse (parse_of_spells h)
  have hfirst := h.noBlank []
  cases b with
  | nil => exact ht
  | cons d b =>
      rw [List.append_nil, List.cons_append] at hfirst
      simp [NoBlank, hb d List.mem_cons_self] at hfirst

/-- **What is accepted is well formed.** Every text that `parse` accepts is, behind
some blanks, a way of writing the query it returns; and among these ways are all that
the manual documents. -/
theorem accepted_is_written :
    (∀ (inp : List Char) (c : Criterion E), parse inp = some c →
      ∃ b s, inp = b ++ s ∧ Blanks b ∧ Accepts c s) ∧
    ∀ (c : Criterion E) (s : List Char), Spells c s → Accepts c s :=
  ⟨fun _ _ => accepts_of_parse, fun _ _ => accepts_of_spells⟩

end Swayr.Theorems.CriteriaAccepted
