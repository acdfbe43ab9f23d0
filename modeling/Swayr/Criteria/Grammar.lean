import Swayr.Ipc.Node
import Swayr.Kit.Peg

/-!
# Criteria queries (`criteria.rs`: `Criterion` and `criteria_parser`)

The abstract syntax and the parsing expression grammar, rule by rule. Regular
expressions are those of an engine that decides which texts are valid and what
they match; a regex carries the proof that its text is valid, and the numbers
carry their ranges.

The grammar is recursive, and its recursion is bounded by `fuel`. Every rule
that recurses first consumes something, so that a bound above the length of the
input is no restriction (`criterion_fuel`).
-/

namespace Swayr.Criteria

open Kit.Peg Kit.Peg.Rule Ipc

/-! ## Abstract syntax -/

/-- The pattern an invalid regex is replaced by. -/
def wontMatch : String := "^__I_WONT_MATCH_A_💩__$"

/-- What is used of the regex crate. -/
structure RegexEngine where
  valid : String → Bool
  /-- `Regex::is_match`, pattern first. -/
  isMatch : String → String → Bool
  wontMatch_valid : valid wontMatch = true

/-- Every pattern is valid and matches every text. -/
def RegexEngine.matchAll : RegexEngine := ⟨fun _ => true, fun _ _ => true, rfl⟩

/-- A compiled regex, identified with its source text. -/
structure Regex (E : RegexEngine) where
  source : String
  valid : E.valid source = true

def Regex.isMatch {E : RegexEngine} (rx : Regex E) (s : String) : Bool := E.isMatch rx.source s

def regexFromStr (E : RegexEngine) (s : String) : Regex E :=
  if h : E.valid s = true then ⟨s, h⟩ else ⟨wontMatch, E.wontMatch_valid⟩

/-- From `i32::MIN = -2^31` to `i32::MAX`. -/
abbrev I32 := { n : Int // -2147483648 ≤ n ∧ n < 2147483648 }

/-- From `i64::MIN = -2^63` to `i64::MAX`. -/
abbrev I64 := { n : Int // -9223372036854775808 ≤ n ∧ n < 9223372036854775808 }

inductive RegexOrFocused (E : RegexEngine)
  | regex (rx : Regex E)
  | focused

inductive I64OrFocused
  | i64 (n : I64)
  | focused

inductive ShellTypeOrFocused
  | shellType (t : ShellType)
  | focused

inductive Criterion (E : RegexEngine)
  | and (cs : List (Criterion E))
  | or (cs : List (Criterion E))
  | not (c : Criterion E)
  | appId (v : RegexOrFocused E)
  | class_ (v : RegexOrFocused E)
  | instance_ (v : RegexOrFocused E)
  | appName (v : RegexOrFocused E)
  | title (v : RegexOrFocused E)
  | conMark (rx : Regex E)
  | conId (v : I64OrFocused)
  | pid (n : I32)
  | workspace (v : RegexOrFocused E)
  | shell (v : ShellTypeOrFocused)
  | floating
  | tiling

/-! ## Lexical rules -/

def isBlank (c : Char) : Bool := c == ' ' || c == '\t'

def space : Rule Unit := do
  let _ ← star isBlank
  pure ()

/-- The value of a string of decimal digits. -/
def natVal (ds : List Char) : Nat := ds.foldl (fun n d => 10 * n + (d.toNat - '0'.toNat)) 0

/-- `['-']?['0'..='9']+` with its value. -/
def intLiteral : Rule Int := do
  let sign ← opt (lit "-")
  let ds ← plus Char.isDigit
  pure (if sign.isSome then -(natVal ds : Int) else natVal ds)

def i32Literal : Rule I32 :=
  mapOption (fun n => if h : -2147483648 ≤ n ∧ n < 2147483648 then some ⟨n, h⟩ else none)
    intLiteral

def i64Literal : Rule I64 :=
  mapOption
    (fun n =>
      if h : -9223372036854775808 ≤ n ∧ n < 9223372036854775808 then some ⟨n, h⟩ else none)
    intLiteral

def stringLiteral : Rule String := do
  lit "\""
  let s ← star (· != '"')
  lit "\""
  pure (String.ofList s)

variable {E : RegexEngine}

def regexOrFocused : Rule (RegexOrFocused E) :=
  choice (do lit "__focused__"; pure .focused)
    (do let s ← stringLiteral; pure (.regex (regexFromStr E s)))

def i64OrFocused : Rule I64OrFocused :=
  choice (do lit "__focused__"; pure .focused) (do let n ← i64Literal; pure (.i64 n))

def shellTypeOrFocused : Rule ShellTypeOrFocused :=
  choice (do lit "\"xdg_shell\""; pure (.shellType .xdgShell))
    (choice (do lit "\"xwayland\""; pure (.shellType .xwayland))
      (do lit "__focused__"; pure .focused))

/-! ## Simple criteria -/

/-- `name = value`, blanks allowed around the equals sign. -/
def keyValue {α : Type} (name : String) (value : Rule α) (mk : α → Criterion E) :
    Rule (Criterion E) := do
  lit name
  space
  lit "="
  space
  let v ← value
  pure (mk v)

def tiling : Rule (Criterion E) := do lit "tiling"; pure .tiling
def floating : Rule (Criterion E) := do lit "floating"; pure .floating
def appId : Rule (Criterion E) := keyValue "app_id" regexOrFocused .appId
def appName : Rule (Criterion E) := keyValue "app_name" regexOrFocused .appName
def class_ : Rule (Criterion E) := keyValue "class" regexOrFocused .class_
def instance_ : Rule (Criterion E) := keyValue "instance" regexOrFocused .instance_
def title : Rule (Criterion E) := keyValue "title" regexOrFocused .title
def conMark : Rule (Criterion E) :=
  keyValue "con_mark" stringLiteral fun s => .conMark (regexFromStr E s)
def conId : Rule (Criterion E) := keyValue "con_id" i64OrFocused .conId
def pid : Rule (Criterion E) := keyValue "pid" i32Literal .pid
def workspace : Rule (Criterion E) := keyValue "workspace" regexOrFocused .workspace
def shell : Rule (Criterion E) := keyValue "shell" shellTypeOrFocused .shell

/-! ## Combinators -/

section combinators

variable (criterion : Rule (Criterion E))

/-- The part of a bracketed list behind its keyword. -/
def listRest : Rule (List (Criterion E)) := do
  space
  let l ← sepBy criterion space
  space
  lit "]"
  space
  pure l

def and_ : Rule (Criterion E) := do
  lit "["
  space
  let _ ← opt (choice (lit "AND") (choice (lit "and") (lit "&&")))
  let l ← listRest criterion
  pure (.and l)

def or_ : Rule (Criterion E) := do
  lit "["
  space
  choice (lit "OR") (choice (lit "or") (lit "||"))
  let l ← listRest criterion
  pure (.or l)

def not_ : Rule (Criterion E) := do
  choice (lit "NOT") (choice (lit "not") (lit "!"))
  space
  let c ← criterion
  space
  pure (.not c)

end combinators

/-- The alternatives of `criterion` that do not recurse, in order. -/
def simple : Rule (Criterion E) :=
  choice tiling <| choice floating <|
  choice appId <| choice class_ <| choice instance_ <| choice appName <| choice title <|
  choice shell <| choice workspace <| choice conMark <| choice conId <| pid

def criterion : Nat → Rule (Criterion E)
  | 0 => fail
  | fuel + 1 =>
      choice (and_ (criterion fuel)) <| choice (or_ (criterion fuel)) <|
      choice (not_ (criterion fuel)) simple

/-- `criteria_parser::parse`: a match that does not reach the end is no match. -/
def parse (inp : List Char) : Option (Criterion E) :=
  match (do space; criterion (inp.length + 1) : Rule (Criterion E)) inp with
  | some (c, []) => some c
  | _ => none

def parseCriteria (criteria : String) : Option (Criterion E) := parse criteria.toList

/-! ## The bound on the recursion -/

theorem nonGrowing_space : NonGrowing space :=
  (nonGrowing_star _).bind fun _ => nonGrowing_pure _

/-- The opening quote is read at least. -/
theorem consumes_stringLiteral : Consumes stringLiteral :=
  (consumes_lit (by decide)).bind fun _ => (nonGrowing_star _).bind fun _ =>
    (consumes_lit (by decide)).nonGrowing.bind fun _ => nonGrowing_pure _

theorem consumes_intLiteral : Consumes intLiteral := by
  intro inp n rest h
  obtain ⟨sign, mid, hsign, hrest⟩ := bind_eq_some h
  have hle := (consumes_lit (by decide : "-".toList ≠ [])).nonGrowing.opt inp sign mid hsign
  have hlt := (consumes_plus Char.isDigit).bind (fun _ => nonGrowing_pure _) mid n rest hrest
  omega

/-- The key is read at least. -/
theorem consumes_keyValue {α : Type} {name : String} (hname : name.toList ≠ [])
    {value : Rule α} (hv : NonGrowing value) (mk : α → Criterion E) :
    Consumes (keyValue name value mk) :=
  (consumes_lit hname).bind fun _ => nonGrowing_space.bind fun _ =>
    (consumes_lit (by decide)).nonGrowing.bind fun _ => nonGrowing_space.bind fun _ =>
      hv.bind fun _ => nonGrowing_pure _

theorem consumes_focused {α : Type} (a : α) :
    Consumes (do lit "__focused__"; pure a : Rule α) :=
  (consumes_lit (by decide)).bind fun _ => nonGrowing_pure _

theorem consumes_regexOrFocused : Consumes (regexOrFocused : Rule (RegexOrFocused E)) :=
  (consumes_focused _).choice (consumes_stringLiteral.bind fun _ => nonGrowing_pure _)

theorem consumes_i64OrFocused : Consumes i64OrFocused :=
  (consumes_focused _).choice (consumes_intLiteral.mapOption.bind fun _ => nonGrowing_pure _)

theorem consumes_shellTypeOrFocused : Consumes shellTypeOrFocused :=
  ((consumes_lit (by decide)).bind fun _ => nonGrowing_pure _).choice
    (((consumes_lit (by decide)).bind fun _ => nonGrowing_pure _).choice (consumes_focused _))

/-- Every simple criterion begins with a keyword. -/
theorem consumes_simple : Consumes (simple : Rule (Criterion E)) := by
  have hrof := (consumes_regexOrFocused (E := E)).nonGrowing
  unfold simple
  refine .choice ((consumes_lit (by decide)).bind fun _ => nonGrowing_pure _) <|
    .choice ((consumes_lit (by decide)).bind fun _ => nonGrowing_pure _) <|
    .choice ?_ <| .choice ?_ <| .choice ?_ <| .choice ?_ <| .choice ?_ <| .choice ?_ <|
    .choice ?_ <| .choice ?_ <| .choice ?_ ?_
  · exact consumes_keyValue (by decide) hrof _
  · exact consumes_keyValue (by decide) hrof _
  · exact consumes_keyValue (by decide) hrof _
  · exact consumes_keyValue (by decide) hrof _
  · exact consumes_keyValue (by decide) hrof _
  · exact consumes_keyValue (by decide) consumes_shellTypeOrFocused.nonGrowing _
  · exact consumes_keyValue (by decide) hrof _
  · exact consumes_keyValue (by decide) consumes_stringLiteral.nonGrowing _
  · exact consumes_keyValue (by decide) consumes_i64OrFocused.nonGrowing _
  · exact consumes_keyValue (by decide) consumes_intLiteral.mapOption.nonGrowing _

theorem consumes_keyword {a b c : String} (ha : a.toList ≠ []) (hb : b.toList ≠ [])
    (hc : c.toList ≠ []) : Consumes (choice (lit a) (choice (lit b) (lit c))) :=
  (consumes_lit ha).choice ((consumes_lit hb).choice (consumes_lit hc))

theorem nonGrowing_listRest {p : Rule (Criterion E)} (hp : Consumes p) :
    NonGrowing (listRest p) :=
  nonGrowing_space.bind fun _ => (nonGrowing_sepBy hp nonGrowing_space).bind fun _ =>
    nonGrowing_space.bind fun _ => (consumes_lit (by decide)).nonGrowing.bind fun _ =>
      nonGrowing_space.bind fun _ => nonGrowing_pure _

/-- No criterion is read off nothing, so a list of them comes to an end. -/
theorem consumes_criterion (fuel : Nat) : Consumes (criterion fuel : Rule (Criterion E)) := by
  induction fuel with
  | zero => intro inp c rest h; simp [criterion, fail] at h
  | succ fuel ih =>
      rw [criterion]
      refine .choice ?_ <| .choice ?_ <| .choice ?_ consumes_simple
      · exact (consumes_lit (by decide)).bind fun _ => nonGrowing_space.bind fun _ =>
          (consumes_keyword (by decide) (by decide) (by decide)).nonGrowing.opt.bind fun _ =>
            (nonGrowing_listRest ih).bind fun _ => nonGrowing_pure _
      · exact (consumes_lit (by decide)).bind fun _ => nonGrowing_space.bind fun _ =>
          (consumes_keyword (by decide) (by decide) (by decide)).nonGrowing.bind fun _ =>
            (nonGrowing_listRest ih).bind fun _ => nonGrowing_pure _
      · exact (consumes_keyword (by decide) (by decide) (by decide)).bind fun _ =>
          nonGrowing_space.bind fun _ => ih.nonGrowing.bind fun _ =>
            nonGrowing_space.bind fun _ => nonGrowing_pure _

section agree

variable {n : Nat} {p q : Rule (Criterion E)}

/-- What follows the keyword of a list, on inputs on which the elements agree. -/
theorem agree_listRest (h : AgreeBelow n p q) (hp : Consumes p) :
    AgreeBelow n (listRest p) (listRest q) :=
  .bind nonGrowing_space fun _ => (h.sepBy hp nonGrowing_space).bind_left _

/-- The bracket and the keyword are read before the elements, so one character more will do. -/
theorem agree_and (h : AgreeBelow n p q) (hp : Consumes p) :
    AgreeBelow (n + 1) (and_ p) (and_ q) :=
  .bind_succ (consumes_lit (by decide)) fun _ => .bind nonGrowing_space fun _ =>
    .bind (consumes_keyword (by decide) (by decide) (by decide)).nonGrowing.opt fun _ =>
      (agree_listRest h hp).bind_left _

theorem agree_or (h : AgreeBelow n p q) (hp : Consumes p) :
    AgreeBelow (n + 1) (or_ p) (or_ q) :=
  .bind_succ (consumes_lit (by decide)) fun _ => .bind nonGrowing_space fun _ =>
    .bind (consumes_keyword (by decide) (by decide) (by decide)).nonGrowing fun _ =>
      (agree_listRest h hp).bind_left _

theorem agree_not (h : AgreeBelow n p q) : AgreeBelow (n + 1) (not_ p) (not_ q) :=
  .bind_succ (consumes_keyword (by decide) (by decide) (by decide)) fun _ =>
    .bind nonGrowing_space fun _ => h.bind_left _

end agree

/-- Bounds above the length of the input all give the same: the recursion of
the grammar is never cut short. -/
theorem criterion_fuel {m n : Nat} {inp : List Char} (hm : inp.length < m)
    (hn : inp.length < n) : (criterion m : Rule (Criterion E)) inp = criterion n inp := by
  have hagree : ∀ k m n, k ≤ m → k ≤ n →
      AgreeBelow k (criterion m : Rule (Criterion E)) (criterion n) := by
    intro k
    induction k with
    | zero => intro m n _ _ inp h; omega
    | succ k ih =>
        intro m n hm hn
        obtain ⟨m, rfl⟩ : ∃ j, m = j + 1 := ⟨m - 1, by omega⟩
        obtain ⟨n, rfl⟩ : ∃ j, n = j + 1 := ⟨n - 1, by omega⟩
        have hk := ih m n (by omega) (by omega)
        have hc := consumes_criterion (E := E) m
        rw [criterion, criterion]
        exact .choice (agree_and hk hc) <| .choice (agree_or hk hc) <|
          .choice (agree_not hk) (.refl _ _)
  exact hagree (inp.length + 1) m n hm hn inp (Nat.lt_succ_self _)

end Swayr.Criteria
