import LexScript.Proofs.Parse.ProgramGrammar
import Mathlib.Data.List.Forall2

/-!
# What a text tells

Punctuation only shows how the other tokens belong together. What these tell, one after the other, can be read
off the tree as well, and both listings agree for every phrase of the grammar: `Spells.tells`. So a tree has
every name, literal, operator and word of its tokens, once and in their order.
-/

namespace LexScript

/-- What a token tells, wherever it stands: names and strings by their text, numbers by the float that they are
read as, and all other tokens by their kind. -/
inductive Word
  | symbol (kind : TokenKind)
  | name (text : String)
  | string (text : String)
  | number (value : Option Float)

def TokenKind.isPunctuation : TokenKind → Bool
  | .openParen | .closeParen | .openCurly | .closeCurly | .comma | .semicolon | .colon | .arrow => true
  | _ => false

/-- Tokens that tell nothing but their kind, apart from those that declare a variable. -/
def TokenKind.isSymbol : TokenKind → Bool
  | .identifier | .string | .number | .letWord | .assignment => false
  | kind => !kind.isPunctuation

namespace Token

def word (t : Token) : Word :=
  match t.kind with
  | .identifier => .name t.value
  | .string => .string t.value
  | .number => .number (Number.ofText? t.value)
  | kind => .symbol kind

/-- What the tokens tell, without punctuation and without the signs of declarations: the first assignment sign
behind a `let` belongs to the declaration. -/
def words (declaring : Bool) : List Token → List Word
  | [] => []
  | t :: ts =>
    if t.kind.isPunctuation then words declaring ts
    else if t.kind = .assignment ∧ declaring = true then words false ts
    else t.word :: words (declaring || t.kind = .letWord) ts

end Token

/-! ## The words of a tree -/

mutual

def Ty.words : Ty → List Word
  | .number => [.name "number"]
  | .boolean => [.name "bool"]
  | .string => [.name "string"]
  | .void => []
  | .function parameters returns => .symbol .fnWord :: (Ty.wordsOf parameters ++ returns.words)

def Ty.wordsOf : List Ty → List Word
  | [] => []
  | t :: ts => t.words ++ Ty.wordsOf ts

end

def BinaryOperator.kind : BinaryOperator → TokenKind
  | .plus => .plus
  | .minus => .dash
  | .multiply => .star
  | .divide => .slash
  | .modulo => .percent
  | .and => .and
  | .or => .or
  | .notEqual => .notEquals
  | .equal => .equals
  | .greater => .greater
  | .greaterEqual => .greaterEquals
  | .less => .less
  | .lessEqual => .lessEquals

def UnaryOperator.kind : UnaryOperator → TokenKind
  | .negate => .dash
  | .not => .not

def Literal.word : Literal → Word
  | .number x => .number (some x)
  | .boolean true => .symbol .trueWord
  | .boolean false => .symbol .falseWord
  | .string s => .string s

mutual

def Expr.words : Expr → List Word
  | .literal value => [value.word]
  | .name identifier => [.name identifier.name]
  | .assign target value => .name target.name :: .symbol .assignment :: value.words
  | .unary operator operand => .symbol operator.kind :: operand.words
  | .binary operator left right => left.words ++ .symbol operator.kind :: right.words
  | .call callee arguments => callee.words ++ Expr.wordsOf arguments

def Expr.wordsOf : List Expr → List Word
  | [] => []
  | e :: es => e.words ++ Expr.wordsOf es

end

def Parameter.words (p : Parameter) : List Word := .name p.identifier.name :: p.type.words

def FunctionHeader.words (h : FunctionHeader) : List Word :=
  .name h.identifier.name :: (h.parameters.flatMap Parameter.words ++ h.returns.words)

mutual

def Stmt.words : Stmt → List Word
  | .expression _ value => value.words
  | .print _ value => .symbol .printWord :: value.words
  | .block _ body => Decl.wordsOf body
  | .ifThen _ condition thenBranch => .symbol .ifWord :: (condition.words ++ thenBranch.words)
  | .ifElse _ condition thenBranch elseBranch =>
    .symbol .ifWord :: (condition.words ++ thenBranch.words ++ .symbol .elseWord :: elseBranch.words)
  | .whileLoop _ condition body => .symbol .whileWord :: (condition.words ++ body.words)
  | .forLoop _ first condition _ step body =>
    .symbol .forWord :: (first.words ++ condition.words ++ step.words ++ body.words)
  | .ret _ none => [.symbol .returnWord]
  | .ret _ (some value) => .symbol .returnWord :: value.words

def Decl.words : Decl → List Word
  | .binding _ identifier type value =>
    .symbol .letWord :: .name identifier.name :: (type.words ++ value.words)
  | .function _ header body => .symbol .fnWord :: (header.words ++ Decl.wordsOf body)
  | .forward _ header => .symbol .fnWord :: header.words
  | .statement s => s.words

def Decl.wordsOf : List Decl → List Word
  | [] => []
  | d :: ds => d.words ++ Decl.wordsOf ds

end

def Program.words (program : Program) : List Word := Decl.wordsOf program.declarations

def TypePhrase.words : TypePhrase → List Word
  | .type t | .returns t => t.words

def Phrase.words : Phrase → List Word
  | .statement s => s.words
  | .declaration d => d.words
  | .declarations ds => Decl.wordsOf ds

theorem Ty.wordsOf_eq_flatMap (ts : List Ty) : Ty.wordsOf ts = ts.flatMap Ty.words := by
  induction ts with
  | nil => rfl
  | cons t ts ih => simp [Ty.wordsOf, ih]

theorem Expr.wordsOf_eq_flatMap (es : List Expr) : Expr.wordsOf es = es.flatMap Expr.words := by
  induction es with
  | nil => rfl
  | cons e es ih => simp [Expr.wordsOf, ih]

/-! ## The words of tokens -/

/-- Whatever follows them, the tokens tell these words. The flags show whether the sign of a declaration is still
to come, before the tokens and behind them. -/
def Tells (before : Bool) (tokens : List Token) (words : List Word) (after : Bool) : Prop :=
  ∀ rest, Token.words before (tokens ++ rest) = words ++ Token.words after rest

namespace Tells

variable {b b' b'' : Bool} {t : Token} {ts us : List Token} {ws vs : List Word}

theorem nil : Tells b [] [] b := fun _ => rfl

theorem append (h : Tells b ts ws b') (h' : Tells b' us vs b'') : Tells b (ts ++ us) (ws ++ vs) b'' := by
  intro rest
  rw [List.append_assoc, h, h', List.append_assoc]

theorem cons (h : Tells b [t] ws b') (h' : Tells b' ts vs b'') : Tells b (t :: ts) (ws ++ vs) b'' := h.append h'

theorem of_eq (h : Tells b ts ws b') (heq : ws = vs) : Tells b ts vs b' := heq ▸ h

/-- The words of tokens with nothing behind them. -/
theorem words_eq (h : Tells b ts ws b') : Token.words b ts = ws := by
  have hall := h []
  simpa [Token.words] using hall

theorem punctuation {kind : TokenKind} (hkind : t.kind = kind) (h : kind.isPunctuation = true) : Tells b [t] [] b := by
  subst hkind
  exact fun _ => if_pos h

/-- Any other token adds its word, unless it is the sign of a declaration. -/
theorem word {kind : TokenKind} (hkind : t.kind = kind) (h : kind.isPunctuation = false)
    (hsign : ¬ (kind = .assignment ∧ b = true)) :
    Tells b [t] [Token.word ⟨kind, t.value, t.line⟩] (b || kind = .letWord) := by
  subst hkind
  intro rest
  simp [Token.words, Bool.eq_false_iff.1 h, hsign]

theorem symbol {kind : TokenKind} (hkind : t.kind = kind) (h : kind.isSymbol = true) :
    Tells b [t] [.symbol kind] b := by
  have hword : Token.word ⟨kind, t.value, t.line⟩ = .symbol kind := by
    cases kind with
    | identifier | string | number => cases h
    | _ => rfl
  have hpunctuation : kind.isPunctuation = false := by
    revert h
    cases kind <;> decide
  have hassignment : kind ≠ .assignment := by
    rintro rfl
    cases h
  have hlet : kind ≠ .letWord := by
    rintro rfl
    cases h
  simpa [hword, hlet] using word (b := b) hkind hpunctuation fun h => hassignment h.1

theorem name (hkind : t.kind = .identifier) : Tells b [t] [.name t.value] b := by
  simpa [Token.word] using word (b := b) hkind rfl nofun

theorem string (hkind : t.kind = .string) : Tells b [t] [.string t.value] b := by
  simpa [Token.word] using word (b := b) hkind rfl nofun

theorem number (hkind : t.kind = .number) : Tells b [t] [.number (Number.ofText? t.value)] b := by
  simpa [Token.word] using word (b := b) hkind rfl nofun

theorem declares (hkind : t.kind = .letWord) : Tells b [t] [.symbol .letWord] true := by
  simpa [Token.word] using word (b := b) hkind rfl nofun

/-- The sign of a declaration is passed over. -/
theorem sign (hkind : t.kind = .assignment) : Tells true [t] [] false := by
  intro rest
  have hpunctuation : ¬ t.kind.isPunctuation = true := by simp [hkind, TokenKind.isPunctuation]
  rw [List.singleton_append, Token.words, if_neg hpunctuation, if_pos ⟨hkind, rfl⟩]
  rfl

theorem assigns (hkind : t.kind = .assignment) : Tells false [t] [.symbol .assignment] false := by
  simpa [Token.word] using word (b := false) hkind rfl nofun

end Tells

variable {d : Dialect} {b : Bool} {tokens : List Token}

/-- The commas of a list tell nothing. -/
theorem Listed.tells {parts : List (List Token)} {words : List (List Word)} (h : Listed d parts tokens)
    (hparts : List.Forall₂ (fun part ws => Tells b part ws b) parts words) : Tells b tokens words.flatten b := by
  induction h generalizing words with
  | none =>
    cases hparts
    exact .nil
  | last part =>
    obtain _ | ⟨hpart, _ | _⟩ := hparts
    exact hpart.of_eq (by simp)
  | final part allowed ends =>
    obtain _ | ⟨hpart, _ | _⟩ := hparts
    exact (hpart.append (.punctuation ends rfl)).of_eq (by simp)
  | more part separates after ih =>
    obtain _ | ⟨hpart, hrest⟩ := hparts
    exact hpart.append ((Tells.punctuation separates rfl).cons (ih hrest))

/-- The parts of a list tell what their trees tell. -/
theorem Listed.tells_flatMap {α : Type} {parts : List (List Token × α)} (words : α → List Word)
    (h : Listed d (parts.map Prod.fst) tokens) (hparts : ∀ p ∈ parts, Tells b p.1 (words p.2) b) :
    Tells b tokens ((parts.map Prod.snd).flatMap words) b := by
  rw [List.flatMap_def, List.map_map]
  refine h.tells ?_
  simpa using hparts

theorem Separated.listed {parts : List (List Token)} (h : Separated parts tokens) : Listed d parts tokens := by
  induction h with
  | none => exact .none
  | one part => exact .last part
  | more part separates after ih => exact .more part separates ih

theorem SpellsType.tells {phrase : TypePhrase} (h : SpellsType d phrase tokens) : Tells b tokens phrase.words b := by
  induction h with
  | number kind value | boolean kind value | string kind value => exact (Tells.name kind).of_eq (by rw [value]; rfl)
  | function begins opens listed each closes returned ih ihReturned =>
    have hparameters := listed.tells_flatMap Ty.words ih
    have hrest := hparameters.append ((Tells.punctuation closes rfl).cons ihReturned)
    refine ((Tells.symbol begins rfl).cons ((Tells.punctuation opens rfl).cons hrest)).of_eq ?_
    simp [TypePhrase.words, Ty.words, Ty.wordsOf_eq_flatMap]
  | nothing => exact .nil
  | arrow points spells ih =>
    exact (Tells.punctuation points rfl).cons ih

theorem SpellsParameter.tells {p : Parameter} (h : SpellsParameter d p tokens) : Tells b tokens p.words b := by
  obtain ⟨kind, id, separates, spells⟩ := h
  exact (Tells.name kind).cons ((Tells.punctuation separates rfl).cons spells.tells)

theorem SpellsHeader.tells {header : FunctionHeader} (h : SpellsHeader d header tokens) :
    Tells b tokens header.words b := by
  obtain ⟨kind, id, opens, listed, each, closes, returned⟩ := h
  have hparameters := listed.tells_flatMap (b := b) Parameter.words fun p hp => (each p hp).tells
  have hrest := hparameters.append ((Tells.punctuation closes rfl).cons returned.tells)
  exact (Tells.name kind).cons ((Tells.punctuation opens rfl).cons hrest)

theorem Target.tells {i : Identifier} (h : Target tokens i) : Tells b tokens [.name i.name] b := by
  induction h with
  | name kind id => exact .name kind
  | group opens inner closes ih =>
    exact ((Tells.punctuation opens rfl).cons (ih.append (.punctuation closes rfl))).of_eq (by simp)

theorem Level.kind_of_operator? {level : Level} {kind : TokenKind} {operator : BinaryOperator}
    (h : level.operator? kind = some operator) : operator.kind = kind ∧ kind.isSymbol = true := by
  unfold operator? at h
  split at h
  case h_14 => cases h
  all_goals
    cases h
    exact ⟨rfl, rfl⟩

theorem TokenKind.kind_of_sign? {kind : TokenKind} {operator : UnaryOperator}
    (h : kind.sign? = some operator) : operator.kind = kind ∧ kind.isSymbol = true := by
  unfold sign? at h
  split at h
  case h_3 => cases h
  all_goals
    cases h
    exact ⟨rfl, rfl⟩

theorem Derives.tells {level : Level} {e : Expr} (h : Derives level tokens e) :
    Tells false tokens e.words false := by
  induction h with
  | assign left assigns right ih => exact left.tells.append ((Tells.assigns assigns).cons ih)
  | operation next first operates second ihFirst ihSecond =>
    obtain ⟨hkind, hsymbol⟩ := Level.kind_of_operator? operates
    exact ihFirst.append ((Tells.symbol hkind.symm (by simpa [hkind] using hsymbol)).cons ihSecond)
  | inner next derives ih => exact ih
  | unary operates operand ih =>
    obtain ⟨hkind, hsymbol⟩ := TokenKind.kind_of_sign? operates
    exact (Tells.symbol hkind.symm (by simpa [hkind] using hsymbol)).cons ih
  | call called opens separated passed closes ihCalled ihPassed =>
    have harguments := (separated.listed (d := .effective)).tells_flatMap Expr.words ihPassed
    refine (ihCalled.append ((Tells.punctuation opens rfl).cons (harguments.append (.punctuation closes rfl)))).of_eq ?_
    simp [Expr.words, Expr.wordsOf_eq_flatMap]
  | number kind value => exact (Tells.number kind).of_eq (by rw [value]; rfl)
  | string kind => exact .string kind
  | isTrue kind | isFalse kind => exact .symbol kind rfl
  | name kind id => exact .name kind
  | group opens derives closes ih =>
    exact ((Tells.punctuation opens rfl).cons (ih.append (.punctuation closes rfl))).of_eq (by simp)

/-- A phrase of the grammar tells what its tree tells. -/
theorem Spells.tells {p : Phrase} (h : Spells d p tokens) : Tells false tokens p.words false := by
  induction h with
  | expression value begins ends =>
    exact (value.tells.append (.punctuation ends rfl)).of_eq (by simp [Phrase.words, Stmt.words])
  | print begins opens value closes ends =>
    have hends := (Tells.punctuation (b := false) closes rfl).cons (.punctuation ends rfl)
    refine ((Tells.symbol begins rfl).cons ((Tells.punctuation opens rfl).cons (value.tells.append hends))).of_eq ?_
    simp [Phrase.words, Stmt.words]
  | ret begins ends => exact (Tells.symbol begins rfl).cons (.punctuation ends rfl)
  | retValue begins value ends =>
    refine ((Tells.symbol begins rfl).cons (value.tells.append (.punctuation ends rfl))).of_eq ?_
    simp [Phrase.words, Stmt.words]
  | block opens inner closes ih =>
    refine ((Tells.punctuation opens rfl).cons (ih.append (.punctuation closes rfl))).of_eq ?_
    simp [Phrase.words, Stmt.words]
  | ifThen begins condition separates thenBranch ih =>
    exact (Tells.symbol begins rfl).cons (condition.tells.append ih)
  | ifElse begins condition separates thenBranch divides elseBranch ihThen ihElse =>
    have helse := (Tells.symbol divides rfl).cons ihElse
    exact (Tells.symbol begins rfl).cons ((condition.tells.append ihThen).append helse)
  | whileLoop begins condition separates body ih => exact (Tells.symbol begins rfl).cons (condition.tells.append ih)
  | forLoop begins init condition ends increment beginsStep separates body ihFirst ihBody =>
    have hrest := (Tells.punctuation ends rfl).cons (increment.tells.append ihBody)
    refine ((Tells.symbol begins rfl).cons ((ihFirst.append condition.tells).append hrest)).of_eq ?_
    simp [Phrase.words, Stmt.words]
  | binding begins kind id declares declared assigns initial ends =>
    have hvalue := (Tells.sign assigns).cons (initial.tells.append (.punctuation ends rfl))
    have htype := (Tells.punctuation declares rfl).cons (declared.tells.append hvalue)
    refine ((Tells.declares begins).cons ((Tells.name kind).cons htype)).of_eq ?_
    simp [Phrase.words, Decl.words, TypePhrase.words]
  | function begins headed opens inner closes ih =>
    have hbody := (Tells.punctuation opens rfl).cons (ih.append (.punctuation closes rfl))
    refine ((Tells.symbol begins rfl).cons (headed.tells.append hbody)).of_eq ?_
    simp [Phrase.words, Decl.words]
  | forward begins headed ends =>
    refine ((Tells.symbol begins rfl).cons (headed.tells.append (.punctuation ends rfl))).of_eq ?_
    simp [Phrase.words, Decl.words]
  | statement spells ih => exact ih
  | nil => exact .nil
  | cons first more ihFirst ihMore => exact ihFirst.append ihMore

end LexScript
