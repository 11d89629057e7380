import LexScript.Proofs.Parse.Identities
import LexScript.Proofs.Parse.Language
import LexScript.Proofs.Parse.Words
import Mathlib.Data.List.TakeWhile

/-!
# Trees in source order

A program that is read has all that its tokens tell, in their order, and every line in it is that of the first
token that the statement or the declaration was read from: `Program.ofTokens_lists`. The identifiers among the
words are numbered as they come: `Program.ids_exhaust`.
-/

namespace LexScript

/-- What has a line in a tree. The step of a `for` is an expression statement that ends where the body of the
loop begins. -/
inductive Node
  | statement (s : Stmt)
  | declaration (d : Decl)
  | step (line : Nat) (value : Expr)

namespace Node

def line : Node → Nat
  | statement s => s.line
  | declaration d => d.line
  | step line _ => line

def SpelledBy (tokens : List Token) : Node → Prop
  | statement s => Spells .effective (.statement s) tokens
  | declaration d => Spells .effective (.declaration d) tokens
  | step _ value => Derives .assignment tokens value

/-- The node is spelled somewhere among the tokens, and its line is that of the first token there. -/
def LiesIn (tokens : List Token) (node : Node) : Prop :=
  ∃ part, part <:+: tokens ∧ node.SpelledBy part ∧ part.head?.map Token.line = some node.line

theorem LiesIn.mono {tokens more : List Token} {node : Node} (h : node.LiesIn tokens) (hmore : tokens <:+: more) :
    node.LiesIn more := by
  obtain ⟨part, hpart, hspelled, hline⟩ := h
  exact ⟨part, hpart.trans hmore, hspelled, hline⟩

end Node

mutual

def Stmt.nodes : Stmt → List Node
  | .block line body => .statement (.block line body) :: Decl.nodesOf body
  | .ifThen line condition thenBranch => .statement (.ifThen line condition thenBranch) :: thenBranch.nodes
  | .ifElse line condition thenBranch elseBranch =>
    .statement (.ifElse line condition thenBranch elseBranch) :: (thenBranch.nodes ++ elseBranch.nodes)
  | .whileLoop line condition body => .statement (.whileLoop line condition body) :: body.nodes
  | .forLoop line first condition stepLine step body =>
    .statement (.forLoop line first condition stepLine step body) ::
      (first.nodes ++ .step stepLine step :: body.nodes)
  | .expression line value => [.statement (.expression line value)]
  | .print line value => [.statement (.print line value)]
  | .ret line value => [.statement (.ret line value)]

def Decl.nodes : Decl → List Node
  | .binding line identifier type value => [.declaration (.binding line identifier type value)]
  | .function line header body => .declaration (.function line header body) :: Decl.nodesOf body
  | .forward line header => [.declaration (.forward line header)]
  | .statement s => .declaration (.statement s) :: s.nodes

def Decl.nodesOf : List Decl → List Node
  | [] => []
  | d :: ds => d.nodes ++ Decl.nodesOf ds

end

def Program.nodes (program : Program) : List Node := Decl.nodesOf program.declarations

def Phrase.nodes : Phrase → List Node
  | .statement s => s.nodes
  | .declaration d => d.nodes
  | .declarations ds => Decl.nodesOf ds

namespace Spells

variable {d : Dialect} {tokens : List Token}

/-- The line of a statement is that of its first token. -/
theorem line_statement {s : Stmt} (h : Spells d (.statement s) tokens) :
    tokens.head?.map Token.line = some s.line := by
  cases h with
  | expression value begins ends =>
    obtain ⟨t, after, rfl, -⟩ := value.head
    exact begins
  | _ => rfl

/-- The line of a declaration is that of its first token. -/
theorem line_declaration {x : Decl} (h : Spells d (.declaration x) tokens) :
    tokens.head?.map Token.line = some x.line := by
  cases h with
  | statement spells => exact spells.line_statement
  | _ => rfl

theorem statement_liesIn {s : Stmt} (h : Spells .effective (.statement s) tokens) :
    (Node.statement s).LiesIn tokens :=
  ⟨tokens, List.infix_rfl, h, h.line_statement⟩

theorem declaration_liesIn {x : Decl} (h : Spells .effective (.declaration x) tokens) :
    (Node.declaration x).LiesIn tokens :=
  ⟨tokens, List.infix_rfl, h, h.line_declaration⟩

/-- Every node of a phrase is spelled by a part of its tokens. -/
theorem nodes_lieIn {p : Phrase} (h : Spells .effective p tokens) : ∀ node ∈ p.nodes, node.LiesIn tokens := by
  have hwhole := h
  induction h with
  | expression | print | ret | retValue =>
    exact List.forall_mem_singleton.2 hwhole.statement_liesIn
  | @block opening closing tokens body opens inner closes ih =>
    refine List.forall_mem_cons.2 ⟨hwhole.statement_liesIn, fun node hnode => ?_⟩
    exact (ih inner node hnode).mono ⟨[opening], [closing], rfl⟩
  | @ifThen word test branch e s begins condition separates thenBranch ih =>
    refine List.forall_mem_cons.2 ⟨hwhole.statement_liesIn, fun node hnode => ?_⟩
    exact (ih thenBranch node hnode).mono (List.suffix_append (word :: test) branch).isInfix
  | @ifElse word other test branch rest e s u begins condition separates thenBranch divides elseBranch ihThen
      ihElse =>
    refine List.forall_mem_cons.2 ⟨hwhole.statement_liesIn, fun node hnode => ?_⟩
    rcases List.mem_append.1 hnode with hnode | hnode
    · exact (ihThen thenBranch node hnode).mono ⟨word :: test, other :: rest, rfl⟩
    · refine (ihElse elseBranch node hnode).mono ⟨word :: (test ++ branch ++ [other]), [], ?_⟩
      simp
  | @whileLoop word test tokens e s begins condition separates body ih =>
    refine List.forall_mem_cons.2 ⟨hwhole.statement_liesIn, fun node hnode => ?_⟩
    exact (ih body node hnode).mono (List.suffix_append (word :: test) tokens).isInfix
  | @forLoop word ending start test advance tokens first e step stepLine s begins init condition ends increment
      beginsStep separates body ihFirst ihBody =>
    refine List.forall_mem_cons.2 ⟨hwhole.statement_liesIn, fun node hnode => ?_⟩
    rcases List.mem_append.1 hnode with hnode | hnode
    · refine (ihFirst init node hnode).mono ⟨[word], test ++ ending :: (advance ++ tokens), ?_⟩
      simp
    rcases List.mem_cons.1 hnode with rfl | hnode
    · refine ⟨advance, ⟨word :: (start ++ test ++ [ending]), tokens, ?_⟩, increment, beginsStep⟩
      simp
    · refine (ihBody body node hnode).mono ⟨word :: (start ++ test ++ ending :: advance), [], ?_⟩
      simp
  | binding | forward => exact List.forall_mem_singleton.2 hwhole.declaration_liesIn
  | @function word opening closing header tokens h body begins headed opens inner closes ih =>
    refine List.forall_mem_cons.2 ⟨hwhole.declaration_liesIn, fun node hnode => ?_⟩
    refine (ih inner node hnode).mono ⟨word :: (header ++ [opening]), [closing], ?_⟩
    simp
  | statement spells ih =>
    exact List.forall_mem_cons.2 ⟨hwhole.declaration_liesIn, ih spells⟩
  | nil => exact List.forall_mem_nil _
  | @cons tokens rest x xs first more ihFirst ihMore =>
    intro node hnode
    rcases List.mem_append.1 hnode with hnode | hnode
    · exact (ihFirst first node hnode).mono (List.prefix_append tokens rest).isInfix
    · exact (ihMore more node hnode).mono (List.suffix_append tokens rest).isInfix

end Spells

/-! ## The tokens of a program -/

theorem Cursor.stop_start (tokens : List Token) : (start tokens).stop.kind = .eof := by
  rw [start]
  cases hfind : tokens.find? (·.kind = .eof) with
  | none => rfl
  | some stop =>
    have hstop := List.find?_some hfind
    exact of_decide_eq_true hstop

theorem Cursor.ahead_start_ne_eof {tokens : List Token} : ∀ t ∈ (start tokens).ahead, t.kind ≠ .eof := by
  intro t ht
  have hkind := List.mem_takeWhile_imp ht
  exact of_decide_eq_true hkind

/-- Reading a program leaves no token before the first end of file. -/
theorem Parse.declsWithin_reaches_end {fuel : Nat} {tokens : List Token} {ds : List Decl} {c : Cursor}
    (h : declsWithin fuel (.start tokens) = .ok (ds, c)) :
    c.ahead = [] ∧ Spells .effective (.declarations ds) (tokens.takeWhile (·.kind ≠ .eof)) := by
  obtain ⟨ts, hpasses, hspells⟩ := declsWithin_meets _ _ (Cursor.stop_start tokens) _ _ h
  have hahead : c.ahead = [] := by
    refine List.eq_nil_iff_forall_not_mem.2 fun t ht => ?_
    obtain ⟨u, rest, hc⟩ := List.exists_cons_of_ne_nil (List.ne_nil_of_mem ht)
    have heof := declsWithin_ends h
    rw [Cursor.token, hc] at heof
    have hu : u ∈ (Cursor.start tokens).ahead := by
      rw [hpasses.ahead, hc]
      exact List.mem_append_right _ (List.mem_cons_self ..)
    exact Cursor.ahead_start_ne_eof u hu heof
  have htokens : tokens.takeWhile (·.kind ≠ .eof) = ts ++ c.ahead := hpasses.ahead
  rw [hahead, List.append_nil] at htokens
  exact ⟨hahead, htokens ▸ hspells⟩

namespace Program

variable {tokens : List Token} {program : Program}

theorem spells_of_ofTokens (h : ofTokens tokens = .ok program) :
    Spells .effective (.declarations program.declarations) (tokens.takeWhile (·.kind ≠ .eof)) := by
  obtain ⟨c, hread, -⟩ := ofTokens_eq_ok.1 h
  exact (Parse.declsWithin_reaches_end hread).2

/-- The tokens before the first end of file tell what the program tells, and spell it. Every line of the program
is that of the first of the tokens that spell the statement, the declaration or the step there. -/
theorem ofTokens_lists (h : ofTokens tokens = .ok program) :
    Token.words false (tokens.takeWhile (·.kind ≠ .eof)) = program.words ∧
      Spells .effective (.declarations program.declarations) (tokens.takeWhile (·.kind ≠ .eof)) ∧
        ∀ node ∈ program.nodes, node.LiesIn (tokens.takeWhile (·.kind ≠ .eof)) := by
  have hspells := spells_of_ofTokens h
  exact ⟨hspells.tells.words_eq, hspells, hspells.nodes_lieIn⟩

end Program

/-- The tokens of an if on three lines, whose else assigns to a name in parentheses. -/
def Token.layoutSample : List Token :=
  [⟨.ifWord, "if", 1⟩, ⟨.identifier, "a", 1⟩, ⟨.openCurly, "\x7b", 1⟩, ⟨.printWord, "print", 2⟩,
    ⟨.openParen, "(", 2⟩, ⟨.string, "x", 2⟩, ⟨.closeParen, ")", 2⟩, ⟨.semicolon, ";", 2⟩,
    ⟨.closeCurly, "\x7d", 2⟩, ⟨.elseWord, "else", 2⟩, ⟨.openParen, "(", 3⟩, ⟨.identifier, "b", 3⟩,
    ⟨.closeParen, ")", 3⟩, ⟨.assignment, "=", 3⟩, ⟨.identifier, "c", 3⟩, ⟨.semicolon, ";", 3⟩]

def Program.layoutSample : Program where
  declarations :=
    [.statement (.ifElse 1 (.name ⟨"a", 0⟩) (.block 1 [.statement (.print 2 (.literal (.string "x")))])
      (.expression 3 (.assign ⟨"b", 1⟩ (.name ⟨"c", 2⟩))))]
  identifierCount := 3

/-- The sample loses its punctuation only, and its assignment keeps its sign and its line. -/
theorem Program.ofTokens_lists_layoutSample :
    ofTokens (Token.layoutSample ++ [.endOfFile 3]) = .ok layoutSample ∧
      Token.words false Token.layoutSample =
        [.symbol .ifWord, .name "a", .symbol .printWord, .string "x", .symbol .elseWord, .name "b",
          .symbol .assignment, .name "c"] ∧
      (Node.statement (.expression 3 (.assign ⟨"b", 1⟩ (.name ⟨"c", 2⟩)))).LiesIn Token.layoutSample := by
  have hread : ofTokens (Token.layoutSample ++ [.endOfFile 3]) = .ok layoutSample := rfl
  obtain ⟨hwords, -, hnodes⟩ := ofTokens_lists hread
  refine ⟨hread, hwords, hnodes _ ?_⟩
  simp [nodes, layoutSample, Decl.nodesOf, Decl.nodes, Stmt.nodes]

/-! ## The numbers of the identifiers -/

def Identifier.word (i : Identifier) : Word := .name i.name

mutual

theorem Expr.identifiers_words : ∀ e : Expr, (e.identifiers.map Identifier.word).Sublist e.words
  | .literal _ => List.nil_sublist _
  | .name _ => List.Sublist.refl _
  | .assign _ value => (value.identifiers_words.cons _).cons_cons _
  | .unary _ operand => operand.identifiers_words.cons _
  | .binary operator left right => by
    have hright := right.identifiers_words.cons (.symbol operator.kind)
    simpa [Expr.identifiers, Expr.words] using left.identifiers_words.append hright
  | .call callee arguments => by
    rw [Expr.identifiers, List.map_append, Expr.words]
    exact callee.identifiers_words.append (Expr.identifiersOf_words arguments)

theorem Expr.identifiersOf_words : ∀ es : List Expr,
    ((Expr.identifiersOf es).map Identifier.word).Sublist (Expr.wordsOf es)
  | [] => .slnil
  | e :: es => by
    rw [Expr.identifiersOf, List.map_append]
    exact e.identifiers_words.append (Expr.identifiersOf_words es)

end

theorem FunctionHeader.identifiers_words (h : FunctionHeader) :
    (h.identifiers.map Identifier.word).Sublist h.words := by
  have hparameters : ∀ ps : List Parameter,
      ((ps.map Parameter.identifier).map Identifier.word).Sublist (ps.flatMap Parameter.words) := by
    intro ps
    induction ps with
    | nil => exact .slnil
    | cons p ps ih =>
      rw [List.flatMap_cons]
      exact (ih.trans (List.sublist_append_right ..)).cons_cons _
  exact ((hparameters h.parameters).trans (List.sublist_append_left ..)).cons_cons _

mutual

theorem Stmt.identifiers_words : ∀ s : Stmt, (s.identifiers.map Identifier.word).Sublist s.words
  | .expression _ value => value.identifiers_words
  | .print _ value => value.identifiers_words.cons _
  | .block _ body => Decl.identifiersOf_words body
  | .ifThen _ condition thenBranch => by
    rw [Stmt.identifiers, List.map_append]
    exact (condition.identifiers_words.append thenBranch.identifiers_words).cons _
  | .ifElse _ condition thenBranch elseBranch => by
    simp only [Stmt.identifiers, List.map_append]
    have hbranches := condition.identifiers_words.append thenBranch.identifiers_words
    exact (hbranches.append (elseBranch.identifiers_words.cons _)).cons _
  | .whileLoop _ condition body => by
    rw [Stmt.identifiers, List.map_append]
    exact (condition.identifiers_words.append body.identifiers_words).cons _
  | .forLoop _ first condition _ step body => by
    simp only [Stmt.identifiers, List.map_append]
    have htest := first.identifiers_words.append condition.identifiers_words
    exact ((htest.append step.identifiers_words).append body.identifiers_words).cons _
  | .ret _ none => List.nil_sublist _
  | .ret _ (some value) => value.identifiers_words.cons _

theorem Decl.identifiers_words : ∀ d : Decl, (d.identifiers.map Identifier.word).Sublist d.words
  | .binding _ _ type value =>
    ((value.identifiers_words.trans (List.sublist_append_right ..)).cons_cons _).cons _
  | .function _ header body => by
    rw [Decl.identifiers, List.map_append]
    exact (header.identifiers_words.append (Decl.identifiersOf_words body)).cons _
  | .forward _ header => header.identifiers_words.cons _
  | .statement s => s.identifiers_words

theorem Decl.identifiersOf_words : ∀ ds : List Decl,
    ((Decl.identifiersOf ds).map Identifier.word).Sublist (Decl.wordsOf ds)
  | [] => .slnil
  | d :: ds => by
    rw [Decl.identifiersOf, List.map_append]
    exact d.identifiers_words.append (Decl.identifiersOf_words ds)

end

/-- A token tells at most one word. -/
theorem Token.length_words_le (declaring : Bool) (ts : List Token) : (words declaring ts).length ≤ ts.length := by
  induction ts generalizing declaring with
  | nil => exact Nat.le_refl 0
  | cons t ts ih =>
    rw [words]
    split
    · exact Nat.le_succ_of_le (ih declaring)
    split
    · exact Nat.le_succ_of_le (ih false)
    · exact Nat.succ_le_succ (ih _)

/-- The identifiers of a program are numbered from zero to their count as they come among the tokens, and a count
in 32 bits has room for them. -/
theorem Program.ids_exhaust {tokens : List Token} {program : Program} (h : ofTokens tokens = .ok program)
    (hlength : tokens.length < UInt32.size) :
    (program.identifiers.map Identifier.word).Sublist
        (Token.words false (tokens.takeWhile (·.kind ≠ .eof))) ∧
      program.identifiers.map Identifier.id = List.range program.identifierCount ∧
        program.identifierCount < UInt32.size := by
  have hids := ids_ofTokens h
  have hnames : (program.identifiers.map Identifier.word).Sublist
      (Token.words false (tokens.takeWhile (·.kind ≠ .eof))) := by
    rw [(spells_of_ofTokens h).tells.words_eq]
    exact Decl.identifiersOf_words program.declarations
  refine ⟨hnames, hids, ?_⟩
  calc program.identifierCount = program.identifiers.length := by
        rw [← List.length_range (n := program.identifierCount), ← hids, List.length_map]
    _ ≤ (Token.words false (tokens.takeWhile (·.kind ≠ .eof))).length := by
        simpa using hnames.length_le
    _ ≤ (tokens.takeWhile (·.kind ≠ .eof)).length := Token.length_words_le ..
    _ ≤ tokens.length := (List.takeWhile_sublist _).length_le
    _ < UInt32.size := hlength

/-- The target of an assignment in parentheses keeps its place among the identifiers. -/
theorem Program.ids_exhaust_layoutSample :
    (ofTokens (Token.layoutSample ++ [.endOfFile 3]) = .ok layoutSample ∧
      (Token.layoutSample ++ [Token.endOfFile 3]).length < UInt32.size) ∧
      (([⟨"a", 0⟩, ⟨"b", 1⟩, ⟨"c", 2⟩] : List Identifier).map Identifier.word).Sublist
          (Token.words false Token.layoutSample) ∧
        layoutSample.identifiers.map Identifier.id = [0, 1, 2] ∧ layoutSample.identifierCount < UInt32.size := by
  have hread : ofTokens (Token.layoutSample ++ [.endOfFile 3]) = .ok layoutSample := rfl
  have hlength : (Token.layoutSample ++ [Token.endOfFile 3]).length < UInt32.size := by decide
  exact ⟨⟨hread, hlength⟩, ids_exhaust hread hlength⟩

end LexScript
