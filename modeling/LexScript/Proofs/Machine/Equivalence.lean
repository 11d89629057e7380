import LexScript.Proofs.Machine.RewrittenRun
import LexScript.Proofs.Typing.Rewriting

/-!
# Programs that do the same

Two ways to write a program differently change nothing that can be seen: a function need not be announced where it is
declared with a body, and a `for` loop is a `while` loop in a block of its own. Slots are numbered anew and names are
found more frames outwards, but both programs are accepted, print the same and end alike.
-/

namespace LexScript

/-- A function without a body is redundant beside one with a body. If such declarations are left out, anywhere in a
parsed program that passes the check, then names are still resolved, the check is still passed, and the program prints
the same and ends with the same error or without one, or never ends, whatever the limit on the depth of calls. -/
theorem Program.announcement_redundant {tokens : List Token} {p p' : Program} {addresses : Resolutions}
    (hparsed : Program.ofTokens tokens = .ok p) (h : p.Rewrites .omission p')
    (hresolved : Resolutions.ofProgram p = .ok addresses) (hchecked : p.check addresses = .ok ()) :
    ∃ addresses', Resolutions.ofProgram p' = .ok addresses' ∧ p'.check addresses' = .ok () ∧
      ∀ (limit : Nat) (sink : Sink), Machine.RunAlike ((p.launch (.start sink)).run ⟨addresses, limit⟩ ·)
        ((p'.launch (.start sink)).run ⟨addresses', limit⟩ ·) := by
  have hids : p.DistinctIdentities := .ofTokens hparsed
  obtain ⟨addresses', hresolved'⟩ := h.resolves_iff.2 ⟨addresses, hresolved⟩
  exact ⟨addresses', hresolved', h.check hids hresolved hresolved' hchecked, h.runAlike hids hresolved hresolved'⟩

/-- The tokens of a program with two functions that use each other, the second of which is announced. -/
def Token.announcedSample : List Token :=
  [⟨.fnWord, "fn", 1⟩, ⟨.identifier, "g", 1⟩, ⟨.openParen, "(", 1⟩, ⟨.closeParen, ")", 1⟩, ⟨.semicolon, ";", 1⟩,
    ⟨.fnWord, "fn", 2⟩, ⟨.identifier, "f", 2⟩, ⟨.openParen, "(", 2⟩, ⟨.closeParen, ")", 2⟩,
    ⟨.openCurly, "\x7b", 2⟩, ⟨.identifier, "g", 2⟩, ⟨.openParen, "(", 2⟩, ⟨.closeParen, ")", 2⟩,
    ⟨.semicolon, ";", 2⟩, ⟨.closeCurly, "\x7d", 2⟩,
    ⟨.fnWord, "fn", 3⟩, ⟨.identifier, "g", 3⟩, ⟨.openParen, "(", 3⟩, ⟨.closeParen, ")", 3⟩,
    ⟨.openCurly, "\x7b", 3⟩, ⟨.printWord, "print", 3⟩, ⟨.openParen, "(", 3⟩, ⟨.identifier, "f", 3⟩,
    ⟨.closeParen, ")", 3⟩, ⟨.semicolon, ";", 3⟩, ⟨.closeCurly, "\x7d", 3⟩,
    ⟨.identifier, "f", 4⟩, ⟨.openParen, "(", 4⟩, ⟨.closeParen, ")", 4⟩, ⟨.semicolon, ";", 4⟩]

def Program.definedSample : Program where
  declarations :=
    [.function 2 ⟨⟨"f", 1⟩, [], .void⟩ [.statement (.expression 2 (.call (.name ⟨"g", 2⟩) []))],
      .function 3 ⟨⟨"g", 3⟩, [], .void⟩ [.statement (.print 3 (.name ⟨"f", 4⟩))],
      .statement (.expression 4 (.call (.name ⟨"f", 5⟩) []))]
  identifierCount := 6

def Program.announcedSample : Program :=
  { Program.definedSample with
    declarations := .forward 1 ⟨⟨"g", 0⟩, [], .void⟩ :: Program.definedSample.declarations }

def Resolutions.announcedSample : Resolutions :=
  ⟨#[some ⟨0, 0⟩, some ⟨0, 1⟩, some ⟨1, 0⟩, some ⟨0, 0⟩, some ⟨1, 1⟩, some ⟨0, 1⟩]⟩

def Resolutions.definedSample : Resolutions :=
  ⟨#[none, some ⟨0, 0⟩, some ⟨1, 1⟩, some ⟨0, 1⟩, some ⟨1, 0⟩, some ⟨0, 0⟩]⟩

/-- Without the announcement the two functions take each other's slots, and still the first one is printed. -/
theorem Program.announcement_redundant_announcedSample :
    Program.ofTokens Token.announcedSample = .ok .announcedSample ∧
    Program.announcedSample.Rewrites .omission .definedSample ∧
    Resolutions.ofProgram .announcedSample = .ok .announcedSample ∧
    Program.announcedSample.check .announcedSample = .ok () ∧
    Program.definedSample.check .definedSample = .ok () ∧
    ∃ steps, let finish := (Program.definedSample.launch (.start .unlimited)).run ⟨.definedSample, 9⟩ steps
      finish.store.sink = ⟨#["<fn f>"], none⟩ ∧ finish.outcome?.isSome ∧ finish.error? = none := by
  have hparsed : Program.ofTokens Token.announcedSample = .ok .announcedSample := rfl
  have hdefined : FunctionHeader.DefinedIn ⟨⟨"g", 0⟩, [], .void⟩ Program.announcedSample.declarations :=
    ⟨3, ⟨⟨"g", 3⟩, [], .void⟩, _, List.mem_of_getElem? (i := 2) rfl, rfl⟩
  have hrewrites : Program.announcedSample.Rewrites .omission .definedSample := .omission hdefined 1 [] _
  have hresolved : Resolutions.ofProgram .announcedSample = .ok .announcedSample := rfl
  have hchecked : Program.announcedSample.check .announcedSample = .ok () := rfl
  obtain ⟨addresses', hresolved', hchecked', hrun⟩ :=
    announcement_redundant hparsed hrewrites hresolved hchecked
  have haddresses : Resolutions.ofProgram .definedSample = .ok .definedSample := rfl
  obtain rfl := Except.ok.inj (haddresses.symm.trans hresolved')
  obtain ⟨steps, -, hover⟩ := (hrun 9 .unlimited).forth 40
  have halike := hover rfl
  exact ⟨hparsed, hrewrites, hresolved, hchecked, hchecked', steps, halike.sink, halike.finished, halike.error⟩

/-- A `for` loop is a `while` loop in a block. If loops are written that way, anywhere in a parsed program, with the
body and the step in a block again, then names are resolved if they were before, the check is passed if it was before,
and the program prints the same and ends with the same error or without one, or never ends, whatever the limit on the
depth of calls. -/
theorem Program.for_loop_as_while {tokens : List Token} {p p' : Program}
    (hparsed : Program.ofTokens tokens = .ok p) (h : p.Rewrites .unrolling p') :
    ((∃ addresses', Resolutions.ofProgram p' = .ok addresses') ↔
      ∃ addresses, Resolutions.ofProgram p = .ok addresses) ∧
    ∀ addresses addresses', Resolutions.ofProgram p = .ok addresses →
      Resolutions.ofProgram p' = .ok addresses' →
      (p'.check addresses' = .ok () ↔ p.check addresses = .ok ()) ∧
      ∀ (limit : Nat) (sink : Sink), Machine.RunAlike ((p.launch (.start sink)).run ⟨addresses, limit⟩ ·)
        ((p'.launch (.start sink)).run ⟨addresses', limit⟩ ·) := by
  have hids : p.DistinctIdentities := .ofTokens hparsed
  exact ⟨h.resolves_iff, fun addresses addresses' hp hp' =>
    ⟨h.check_iff hids hp hp', h.runAlike hids hp hp'⟩⟩

/-- The tokens of a loop that runs once, with a function in its body that prints the variable of the loop. -/
def Token.roundSample : List Token :=
  [⟨.forWord, "for", 1⟩, ⟨.letWord, "let", 1⟩, ⟨.identifier, "go", 1⟩, ⟨.colon, ":", 1⟩, ⟨.identifier, "bool", 1⟩,
    ⟨.assignment, "=", 1⟩, ⟨.trueWord, "true", 1⟩, ⟨.semicolon, ";", 1⟩, ⟨.identifier, "go", 1⟩,
    ⟨.semicolon, ";", 1⟩, ⟨.identifier, "go", 2⟩, ⟨.assignment, "=", 2⟩, ⟨.falseWord, "false", 2⟩,
    ⟨.openCurly, "\x7b", 3⟩, ⟨.fnWord, "fn", 3⟩, ⟨.identifier, "f", 3⟩, ⟨.openParen, "(", 3⟩,
    ⟨.closeParen, ")", 3⟩, ⟨.openCurly, "\x7b", 3⟩, ⟨.printWord, "print", 3⟩, ⟨.openParen, "(", 3⟩,
    ⟨.identifier, "go", 3⟩, ⟨.closeParen, ")", 3⟩, ⟨.semicolon, ";", 3⟩, ⟨.closeCurly, "\x7d", 3⟩,
    ⟨.identifier, "f", 4⟩, ⟨.openParen, "(", 4⟩, ⟨.closeParen, ")", 4⟩, ⟨.semicolon, ";", 4⟩,
    ⟨.closeCurly, "\x7d", 4⟩]

def Decl.roundSample : Decl := .binding 1 ⟨"go", 0⟩ .boolean (.literal (.boolean true))

def Expr.roundSample : Expr := .assign ⟨"go", 2⟩ (.literal (.boolean false))

def Stmt.roundSample : Stmt :=
  .block 3 [.function 3 ⟨⟨"f", 3⟩, [], .void⟩ [.statement (.print 3 (.name ⟨"go", 4⟩))],
    .statement (.expression 4 (.call (.name ⟨"f", 5⟩) []))]

def Program.roundSample : Program where
  declarations := [.statement (.forLoop 1 .roundSample (.name ⟨"go", 1⟩) 2 .roundSample .roundSample)]
  identifierCount := 6

def Program.unrolledSample : Program where
  declarations :=
    [.statement (.block 1 [.roundSample, .statement (.rounds 1 (.name ⟨"go", 1⟩) 2 .roundSample .roundSample)])]
  identifierCount := 6

def Resolutions.roundSample : Resolutions :=
  ⟨#[some ⟨0, 0⟩, some ⟨0, 0⟩, some ⟨0, 0⟩, some ⟨0, 0⟩, some ⟨2, 0⟩, some ⟨0, 0⟩]⟩

def Resolutions.unrolledSample : Resolutions :=
  ⟨#[some ⟨0, 0⟩, some ⟨0, 0⟩, some ⟨1, 0⟩, some ⟨0, 0⟩, some ⟨3, 0⟩, some ⟨0, 0⟩]⟩

/-- The function finds the variable of the loop one frame further outwards. -/
theorem Program.for_loop_as_while_roundSample :
    Program.ofTokens Token.roundSample = .ok .roundSample ∧
    Program.roundSample.Rewrites .unrolling .unrolledSample ∧
    (∃ addresses, Resolutions.ofProgram .unrolledSample = .ok addresses) ∧
    Program.unrolledSample.check .unrolledSample = .ok () ∧
    ∃ steps, let finish := (Program.unrolledSample.launch (.start .unlimited)).run ⟨.unrolledSample, 9⟩ steps
      finish.store.sink = ⟨#["true"], none⟩ ∧ finish.outcome?.isSome ∧ finish.error? = none := by
  have hparsed : Program.ofTokens Token.roundSample = .ok .roundSample := rfl
  have hrewrites : Program.roundSample.Rewrites .unrolling .unrolledSample :=
    .single (.statement (.unroll rfl 1 _ 2 _ (.refl _ _) (.refl _ _))) _ [] []
  obtain ⟨hresolves, hsame⟩ := for_loop_as_while hparsed hrewrites
  obtain ⟨hcheck, hrun⟩ := hsame .roundSample .unrolledSample rfl rfl
  obtain ⟨steps, -, hover⟩ := (hrun 9 .unlimited).forth 60
  have halike := hover rfl
  exact ⟨hparsed, hrewrites, hresolves.2 ⟨.roundSample, rfl⟩, hcheck.2 rfl, steps, halike.sink, halike.finished,
    halike.error⟩

end LexScript
