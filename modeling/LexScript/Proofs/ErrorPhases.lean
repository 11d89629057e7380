import LexScript.Proofs.Machine.RuntimeErrors
import LexScript.Proofs.Token.Numerals
import LexScript.Proofs.Typing.Checked
import LexScript.Run

/-!
# The phases of errors

The kind of an error names the phase that found it. What a phase takes for granted about the results of
the phases before it holds: every number token reads as a number, every name has an address, and in a
check every name has a type.
-/

namespace LexScript

/-- An error of reading, other than a number token that does not read as a number. -/
def Error.IsReading (e : Error) : Prop := e.kind = .reading ∧ ∀ token, e.cause ≠ .malformedNumber token

/-- A reader sees no token that is not in the list, other than an end of file. -/
theorem Cursor.mem_tokens_start {tokens : List Token} {t : Token} (h : t ∈ (start tokens).tokens) :
    t ∈ tokens ∨ t.kind = .eof := by
  rcases List.mem_append.1 h with h | h
  · exact .inl ((List.takeWhile_sublist _).subset h)
  · obtain rfl := List.mem_singleton.1 h
    rw [start]
    cases hfind : tokens.find? (·.kind = .eof) with
    | none => exact .inr rfl
    | some stop => exact .inl (List.mem_of_find?_eq_some hfind)

namespace Program

theorem error_of_ofSource {source : String} {e : Error} (h : ofSource source = .error e) :
    e.IsReading := by
  rw [ofSource] at h
  cases htokens : Token.ofSource source with
  | error e' =>
    rw [htokens] at h
    obtain rfl := Except.error.inj h
    exact Token.error_of_scan htokens
  | ok tokens =>
    rw [htokens] at h
    have hblames := blames_of_ofTokens h
    refine ⟨hblames.kind, fun text htext => ?_⟩
    obtain ⟨t, ht, hkind, rfl, hnone⟩ := hblames.number text htext
    rcases Cursor.mem_tokens_start ht with ht | heof
    · have hsome := Token.number_of_scan htokens t ht hkind
      rw [hnone] at hsome
      cases hsome
    · rw [hkind] at heof
      cases heof

/-- The kind of an error is that of the phase that found it. Reading never meets a malformed number, a
check never misses the type of a name, and a run, checked or not, never misses an address. -/
theorem error_phases (source : String) :
    (∀ e, ofSource source = .error e → e.IsReading) ∧
      ∀ program, ofSource source = .ok program →
        (∀ e, Resolutions.ofProgram program = .error e → e.kind = .resolution) ∧
        ∀ addresses, Resolutions.ofProgram program = .ok addresses →
          (∀ e, program.check addresses = .error e → e.IsTyping) ∧
          ∀ maxCallDepth m h e, Run ⟨addresses, maxCallDepth⟩ program m h →
            m.control = .ended (.failed e) → e.kind = .runtime := by
  refine ⟨fun e he => error_of_ofSource he, fun program hprogram => ?_⟩
  have hids : program.DistinctIdentities := by
    rw [ofSource] at hprogram
    cases htokens : Token.ofSource source with
    | error e =>
      rw [htokens] at hprogram
      cases hprogram
    | ok tokens =>
      rw [htokens] at hprogram
      exact .ofTokens hprogram
  refine ⟨fun e he => ?_, fun addresses haddresses => ⟨?_, ?_⟩⟩
  · rw [Resolutions.ofProgram_eq, Occurrence.recordAll_eq_error_iff] at he
    rcases he with ⟨before, identifier, line, places, after, -, -, -, rfl⟩
    rfl
  · exact (check_wellTyped hids haddresses).2
  · intro maxCallDepth m h e hrun he
    exact hrun.error_kind hids haddresses he

/-- A program that neither passes the check nor runs to its end. -/
def negationSample : Program :=
  ⟨[.statement (.expression 1 (.unary .negate (.literal (.boolean true))))], 0⟩

theorem ofSource_negationSample : ofSource "-true;" = .ok negationSample := by
  have htokens : Token.ofSource "-true;" = .ok [⟨.dash, "-", 1⟩, ⟨.trueWord, "true", 1⟩,
      ⟨.semicolon, ";", 1⟩, .endOfFile 1] := by
    decide +kernel
  rw [ofSource, htokens]
  rfl

theorem error_phases_negationSample :
    ofSource "@" = .error ⟨.unrecognisedToken "@", 1⟩ ∧
      Error.IsReading ⟨.unrecognisedToken "@", 1⟩ ∧
      negationSample.check .empty = .error ⟨.invalidUnaryOperation "-" "bool", 1⟩ ∧
      Error.IsTyping ⟨.invalidUnaryOperation "-" "bool", 1⟩ ∧
      ((negationSample.launch (.start .unlimited)).run ⟨.empty, 0⟩ 6).control =
        .ended (.failed ⟨.invalidOperand "-" "bool", 1⟩) ∧
      (Error.mk (.invalidOperand "-" "bool") 1).kind = .runtime := by
  have hunread : ofSource "@" = .error ⟨.unrecognisedToken "@", 1⟩ := by
    have htokens : Token.ofSource "@" = .error ⟨.unrecognisedToken "@", 1⟩ := by
      decide +kernel
    rw [ofSource, htokens]
    rfl
  have haddresses : Resolutions.ofProgram negationSample = .ok .empty := rfl
  obtain ⟨-, hphases⟩ := (error_phases "-true;").2 _ ofSource_negationSample
  obtain ⟨hcheck, hrun⟩ := hphases _ haddresses
  obtain ⟨h, hend⟩ := (@Run.start ⟨.empty, 0⟩ negationSample .unlimited).run 6
  exact ⟨hunread, (error_phases "@").1 _ hunread, rfl, hcheck _ rfl, rfl, hrun 0 _ h _ hend rfl⟩

end Program
end LexScript
