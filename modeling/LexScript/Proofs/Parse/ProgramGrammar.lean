import LexScript.Proofs.Parse.Grammar
import LexScript.Tree.Program

/-!
# The grammar of programs

Types, statements and declarations as the productions spell them, each with its tree. The grammar is taken in
two ways: as it is documented, and as it is read. Reading is more liberal about lists, and no expression ends
where it could go on. `Spells.settles` says that every program has a tree in which an else belongs to
the nearest if.
-/

namespace LexScript

structure Dialect where
  /-- A list of parameters or of types may end in a comma. -/
  finalComma : Bool
  /-- An expression that a statement follows directly takes in what it can. -/
  greedy : Bool

namespace Dialect

/-- The productions as they stand. -/
def documented : Dialect := ⟨false, false⟩

/-- The grammar that is read. -/
def effective : Dialect := ⟨true, true⟩

/-- No expression before the tokens could go on with the first of them. -/
def Separates (d : Dialect) (tokens : List Token) : Prop :=
  d.greedy = true → ∀ t, tokens.head? = some t → t.kind.EndsExpression

end Dialect

/-- The tokens are these parts with commas between them, and behind the last one where this is allowed. -/
inductive Listed (d : Dialect) : List (List Token) → List Token → Prop
  | none : Listed d [] []
  | last (part : List Token) : Listed d [part] part
  | final {comma : Token} (part : List Token) (allowed : d.finalComma = true) (ends : comma.kind = .comma) :
    Listed d [part] (part ++ [comma])
  | more {comma : Token} {rest next : List Token} {parts : List (List Token)} (part : List Token)
    (separates : comma.kind = .comma) (after : Listed d (next :: parts) rest) :
    Listed d (part :: next :: parts) (part ++ comma :: rest)

/-- What is spelled by tokens of types: a type, or a return type with its arrow, which may be missing. -/
inductive TypePhrase
  | type (t : Ty)
  | returns (t : Ty)

inductive SpellsType (d : Dialect) : TypePhrase → List Token → Prop
  | number {t : Token} (kind : t.kind = .identifier) (value : t.value = "number") :
    SpellsType d (.type .number) [t]
  | boolean {t : Token} (kind : t.kind = .identifier) (value : t.value = "bool") :
    SpellsType d (.type .boolean) [t]
  | string {t : Token} (kind : t.kind = .identifier) (value : t.value = "string") :
    SpellsType d (.type .string) [t]
  | function {word opening closing : Token} {parameters : List (List Token × Ty)} {tokens result : List Token}
    {r : Ty} (begins : word.kind = .fnWord) (opens : opening.kind = .openParen)
    (listed : Listed d (parameters.map Prod.fst) tokens)
    (each : ∀ p ∈ parameters, SpellsType d (.type p.2) p.1) (closes : closing.kind = .closeParen)
    (returned : SpellsType d (.returns r) result) :
    SpellsType d (.type (.function (parameters.map Prod.snd) r))
      (word :: opening :: (tokens ++ closing :: result))
  | nothing : SpellsType d (.returns .void) []
  | arrow {arrow : Token} {tokens : List Token} {t : Ty} (points : arrow.kind = .arrow)
    (spells : SpellsType d (.type t) tokens) : SpellsType d (.returns t) (arrow :: tokens)

/-- The tokens are a parameter. Its identity is left open. -/
inductive SpellsParameter (d : Dialect) : Parameter → List Token → Prop
  | named {name colon : Token} {tokens : List Token} {t : Ty} (kind : name.kind = .identifier) (id : Nat)
    (separates : colon.kind = .colon) (spells : SpellsType d (.type t) tokens) :
    SpellsParameter d ⟨⟨name.value, id⟩, t⟩ (name :: colon :: tokens)

/-- The tokens are a function up to its body, without the first word. -/
inductive SpellsHeader (d : Dialect) : FunctionHeader → List Token → Prop
  | named {name opening closing : Token} {parameters : List (List Token × Parameter)}
    {tokens result : List Token} {r : Ty} (kind : name.kind = .identifier) (id : Nat)
    (opens : opening.kind = .openParen) (listed : Listed d (parameters.map Prod.fst) tokens)
    (each : ∀ p ∈ parameters, SpellsParameter d p.2 p.1) (closes : closing.kind = .closeParen)
    (returned : SpellsType d (.returns r) result) :
    SpellsHeader d ⟨⟨name.value, id⟩, parameters.map Prod.snd, r⟩
      (name :: opening :: (tokens ++ closing :: result))

inductive Phrase
  | statement (s : Stmt)
  | declaration (d : Decl)
  | declarations (ds : List Decl)

/-- The tokens are the piece of a program. The line of a statement or a declaration is that of its first
token. -/
inductive Spells (d : Dialect) : Phrase → List Token → Prop
  | expression {tokens : List Token} {e : Expr} {ending : Token} {line : Nat}
    (value : Derives .assignment tokens e) (begins : tokens.head?.map Token.line = some line)
    (ends : ending.kind = .semicolon) : Spells d (.statement (.expression line e)) (tokens ++ [ending])
  | print {word opening closing ending : Token} {tokens : List Token} {e : Expr}
    (begins : word.kind = .printWord) (opens : opening.kind = .openParen)
    (value : Derives .assignment tokens e) (closes : closing.kind = .closeParen)
    (ends : ending.kind = .semicolon) :
    Spells d (.statement (.print word.line e)) (word :: opening :: (tokens ++ [closing, ending]))
  | ret {word ending : Token} (begins : word.kind = .returnWord) (ends : ending.kind = .semicolon) :
    Spells d (.statement (.ret word.line none)) [word, ending]
  | retValue {word ending : Token} {tokens : List Token} {e : Expr} (begins : word.kind = .returnWord)
    (value : Derives .assignment tokens e) (ends : ending.kind = .semicolon) :
    Spells d (.statement (.ret word.line (some e))) (word :: (tokens ++ [ending]))
  | block {opening closing : Token} {tokens : List Token} {body : List Decl}
    (opens : opening.kind = .openCurly) (inner : Spells d (.declarations body) tokens)
    (closes : closing.kind = .closeCurly) :
    Spells d (.statement (.block opening.line body)) (opening :: (tokens ++ [closing]))
  | ifThen {word : Token} {test branch : List Token} {e : Expr} {s : Stmt} (begins : word.kind = .ifWord)
    (condition : Derives .assignment test e) (separates : d.Separates branch)
    (thenBranch : Spells d (.statement s) branch) :
    Spells d (.statement (.ifThen word.line e s)) (word :: (test ++ branch))
  | ifElse {word other : Token} {test branch rest : List Token} {e : Expr} {s u : Stmt}
    (begins : word.kind = .ifWord) (condition : Derives .assignment test e) (separates : d.Separates branch)
    (thenBranch : Spells d (.statement s) branch) (divides : other.kind = .elseWord)
    (elseBranch : Spells d (.statement u) rest) :
    Spells d (.statement (.ifElse word.line e s u)) (word :: (test ++ branch ++ other :: rest))
  | whileLoop {word : Token} {test tokens : List Token} {e : Expr} {s : Stmt} (begins : word.kind = .whileWord)
    (condition : Derives .assignment test e) (separates : d.Separates tokens)
    (body : Spells d (.statement s) tokens) :
    Spells d (.statement (.whileLoop word.line e s)) (word :: (test ++ tokens))
  | forLoop {word ending : Token} {start test advance tokens : List Token} {first : Decl} {e step : Expr}
    {stepLine : Nat} {s : Stmt} (begins : word.kind = .forWord) (init : Spells d (.declaration first) start)
    (condition : Derives .assignment test e) (ends : ending.kind = .semicolon)
    (increment : Derives .assignment advance step)
    (beginsStep : advance.head?.map Token.line = some stepLine) (separates : d.Separates tokens)
    (body : Spells d (.statement s) tokens) :
    Spells d (.statement (.forLoop word.line first e stepLine step s))
      (word :: (start ++ test ++ ending :: (advance ++ tokens)))
  | binding {word name colon sign ending : Token} {type value : List Token} {t : Ty} {e : Expr}
    (begins : word.kind = .letWord) (kind : name.kind = .identifier) (id : Nat)
    (declares : colon.kind = .colon) (declared : SpellsType d (.type t) type)
    (assigns : sign.kind = .assignment) (initial : Derives .assignment value e)
    (ends : ending.kind = .semicolon) :
    Spells d (.declaration (.binding word.line ⟨name.value, id⟩ t e))
      (word :: name :: colon :: (type ++ sign :: (value ++ [ending])))
  | function {word opening closing : Token} {header tokens : List Token} {h : FunctionHeader}
    {body : List Decl} (begins : word.kind = .fnWord) (headed : SpellsHeader d h header)
    (opens : opening.kind = .openCurly) (inner : Spells d (.declarations body) tokens)
    (closes : closing.kind = .closeCurly) :
    Spells d (.declaration (.function word.line h body))
      (word :: (header ++ opening :: (tokens ++ [closing])))
  | forward {word ending : Token} {header : List Token} {h : FunctionHeader} (begins : word.kind = .fnWord)
    (headed : SpellsHeader d h header) (ends : ending.kind = .semicolon) :
    Spells d (.declaration (.forward word.line h)) (word :: (header ++ [ending]))
  | statement {tokens : List Token} {s : Stmt} (spells : Spells d (.statement s) tokens) :
    Spells d (.declaration (.statement s)) tokens
  | nil : Spells d (.declarations []) []
  | cons {tokens rest : List Token} {x : Decl} {xs : List Decl} (first : Spells d (.declaration x) tokens)
    (more : Spells d (.declarations xs) rest) : Spells d (.declarations (x :: xs)) (tokens ++ rest)

/-- An else behind the statement belongs to no if inside it. -/
def Stmt.closed : Stmt → Bool
  | .ifThen .. => false
  | .ifElse _ _ _ elseBranch => elseBranch.closed
  | .whileLoop _ _ body | .forLoop _ _ _ _ _ body => body.closed
  | _ => true

mutual

/-- Every else in the statement belongs to the nearest if that it can belong to. -/
def Stmt.Settled : Stmt → Prop
  | .block _ body => Decl.AllSettled body
  | .ifThen _ _ thenBranch => thenBranch.Settled
  | .ifElse _ _ thenBranch elseBranch =>
    thenBranch.closed = true ∧ thenBranch.Settled ∧ elseBranch.Settled
  | .whileLoop _ _ body => body.Settled
  | .forLoop _ first _ _ _ body => first.Settled ∧ body.Settled
  | .expression .. | .print .. | .ret .. => True

def Decl.Settled : Decl → Prop
  | .function _ _ body => Decl.AllSettled body
  | .statement s => s.Settled
  | .binding .. | .forward .. => True

def Decl.AllSettled : List Decl → Prop
  | [] => True
  | d :: ds => d.Settled ∧ Decl.AllSettled ds

end

namespace Spells

variable {d : Dialect} {p : Phrase} {tokens more : List Token} {s u : Stmt}

theorem ne_nil (h : Spells d (.statement s) tokens) : tokens ≠ [] := by
  cases h <;> simp

theorem separates_append (hne : tokens ≠ []) (h : d.Separates tokens) : d.Separates (tokens ++ more) := by
  obtain ⟨t, rest, rfl⟩ := List.exists_cons_of_ne_nil hne
  exact h

/-- A statement that leaves an if open can take an else to itself. -/
theorem attach {other : Token} {rest : List Token} (h : Spells d (.statement s) tokens) (hsettled : s.Settled)
    (hopen : s.closed = false) (hother : other.kind = .elseWord) (helse : Spells d (.statement u) rest)
    (hu : u.Settled) : ∃ s', Spells d (.statement s') (tokens ++ other :: rest) ∧ s'.Settled := by
  generalize hp : Phrase.statement s = p at h
  induction h generalizing s with
  | @ifThen word test branch e s begins condition separates thenBranch ih =>
    obtain rfl := Phrase.statement.inj hp
    have hlonger : word :: (test ++ branch) ++ other :: rest = word :: (test ++ (branch ++ other :: rest)) := by
      simp
    have hs : s.Settled := hsettled
    rw [hlonger]
    cases hclosed : s.closed with
    | true =>
      refine ⟨.ifElse word.line e s u, ?_, hclosed, hs, hu⟩
      rw [← List.append_assoc]
      exact ifElse begins condition separates thenBranch hother helse
    | false =>
      obtain ⟨s', hspells, hs'⟩ := ih hs hclosed rfl
      exact ⟨_, ifThen begins condition (separates_append thenBranch.ne_nil separates) hspells, hs'⟩
  | @ifElse word other' test branch rest' e s u' begins condition separates thenBranch divides elseBranch _ ih =>
    obtain rfl := Phrase.statement.inj hp
    obtain ⟨hclosed, hs, hu'⟩ := hsettled
    obtain ⟨s', hspells, hs'⟩ := ih hu' hopen rfl
    have hlonger : word :: (test ++ branch ++ other' :: rest') ++ other :: rest =
        word :: (test ++ branch ++ other' :: (rest' ++ other :: rest)) := by simp
    rw [hlonger]
    exact ⟨_, ifElse begins condition separates thenBranch divides hspells, hclosed, hs, hs'⟩
  | @whileLoop word test tokens e s begins condition separates body ih =>
    obtain rfl := Phrase.statement.inj hp
    have hs : s.Settled := hsettled
    have hs' : s.closed = false := hopen
    obtain ⟨s', hspells, hs'⟩ := ih hs hs' rfl
    have hlonger : word :: (test ++ tokens) ++ other :: rest = word :: (test ++ (tokens ++ other :: rest)) := by
      simp
    rw [hlonger]
    exact ⟨_, whileLoop begins condition (separates_append body.ne_nil separates) hspells, hs'⟩
  | @forLoop word ending start test advance tokens first e step stepLine s begins init condition ends increment
      beginsStep separates body _ ih =>
    obtain rfl := Phrase.statement.inj hp
    obtain ⟨s', hspells, hs'⟩ := ih hsettled.2 hopen rfl
    have hlonger : word :: (start ++ test ++ ending :: (advance ++ tokens)) ++ other :: rest =
        word :: (start ++ test ++ ending :: (advance ++ (tokens ++ other :: rest))) := by simp
    rw [hlonger]
    exact ⟨_, forLoop begins init condition ends increment beginsStep
      (separates_append body.ne_nil separates) hspells, hsettled.1, hs'⟩
  | expression | print | ret | retValue | block =>
    obtain rfl := Phrase.statement.inj hp
    cases hopen
  | _ => cases hp

/-- The tokens are a phrase of the same sort in which every else is settled. -/
def Settles (d : Dialect) (tokens : List Token) : Phrase → Prop
  | .statement _ => ∃ s, Spells d (.statement s) tokens ∧ s.Settled
  | .declaration _ => ∃ x, Spells d (.declaration x) tokens ∧ x.Settled
  | .declarations _ => ∃ xs, Spells d (.declarations xs) tokens ∧ Decl.AllSettled xs

/-- Every else can be given to the nearest if. -/
theorem settles (h : Spells d p tokens) : Settles d tokens p := by
  induction h with
  | expression value begins ends => exact ⟨_, .expression value begins ends, trivial⟩
  | print begins opens value closes ends => exact ⟨_, .print begins opens value closes ends, trivial⟩
  | ret begins ends => exact ⟨_, .ret begins ends, trivial⟩
  | retValue begins value ends => exact ⟨_, .retValue begins value ends, trivial⟩
  | block opens inner closes ih =>
    obtain ⟨xs, hinner, hxs⟩ := ih
    exact ⟨_, .block opens hinner closes, hxs⟩
  | ifThen begins condition separates thenBranch ih =>
    obtain ⟨s, hbranch, hs⟩ := ih
    exact ⟨_, .ifThen begins condition separates hbranch, hs⟩
  | @ifElse word other test branch rest e _ _ begins condition separates thenBranch divides elseBranch ihThen ihElse =>
    obtain ⟨s, hbranch, hs⟩ := ihThen
    obtain ⟨u, hother, hu⟩ := ihElse
    cases hclosed : s.closed with
    | true => exact ⟨_, .ifElse begins condition separates hbranch divides hother, hclosed, hs, hu⟩
    | false =>
      -- The else belongs to an if inside the branch.
      obtain ⟨s', hlonger, hs'⟩ := hbranch.attach hs hclosed divides hother hu
      refine ⟨.ifThen word.line e s', ?_, hs'⟩
      rw [List.append_assoc]
      exact .ifThen begins condition (separates_append hbranch.ne_nil separates) hlonger
  | whileLoop begins condition separates body ih =>
    obtain ⟨s, hbody, hs⟩ := ih
    exact ⟨_, .whileLoop begins condition separates hbody, hs⟩
  | forLoop begins init condition ends increment beginsStep separates body ihFirst ihBody =>
    obtain ⟨x, hfirst, hx⟩ := ihFirst
    obtain ⟨s, hbody, hs⟩ := ihBody
    exact ⟨_, .forLoop begins hfirst condition ends increment beginsStep separates hbody, hx, hs⟩
  | binding begins kind id declares declared assigns initial ends =>
    exact ⟨_, .binding begins kind id declares declared assigns initial ends, trivial⟩
  | function begins headed opens inner closes ih =>
    obtain ⟨xs, hinner, hxs⟩ := ih
    exact ⟨_, .function begins headed opens hinner closes, hxs⟩
  | forward begins headed ends => exact ⟨_, .forward begins headed ends, trivial⟩
  | statement spells ih =>
    obtain ⟨s, hspells, hs⟩ := ih
    exact ⟨_, .statement hspells, hs⟩
  | nil => exact ⟨[], .nil, trivial⟩
  | cons first more ihFirst ihMore =>
    obtain ⟨x, hfirst, hx⟩ := ihFirst
    obtain ⟨xs, hmore, hxs⟩ := ihMore
    exact ⟨_, .cons hfirst hmore, hx, hxs⟩

end Spells
end LexScript
