import Lisplet.Proofs.Relocation.Evaluation
import Lisplet.Proofs.Relocation.Parsing

/-!
# Where blamed tokens come from

A relocation that spares the tokens of a stream changes nothing of what is read from it, so neither
the reading of the stream nor the evaluation of its trees can blame any other token
(`mem_of_parseWithin_error`, `mem_of_interpret_fault`).
-/

namespace Lisplet

variable {ts : Tokens} {es : List Expr} {room : Nat}

theorem relocate_sparing (ts : Tokens) :
    ts.relocate (.sparing (· ∈ ts.toList)) = ts :=
  Tokens.relocate_eq_self fun _ ht => Relocation.sparing_eq_self_iff.2 ht

theorem map_relocate_sparing (h : parseWithin room ts = .ok es) :
    es.map (Expr.relocate (.sparing (· ∈ ts.toList))) = es := by
  have := parseWithin_relocate (.sparing (· ∈ ts.toList)) room ts
  rw [relocate_sparing, h] at this
  exact (Except.ok.inj this).symm

/-- The token of a violation is one of those that were to be read. -/
theorem mem_of_parseWithin_error {e : ParseError} (h : parseWithin room ts = .error (.error e)) :
    e.token ∈ ts.toList := by
  -- What is read twice from the same stream is the same, relocated or not.
  have := parseWithin_relocate (.sparing (· ∈ ts.toList)) room ts
  rw [relocate_sparing, h] at this
  have spared : e = e.relocate (.sparing (· ∈ ts.toList)) := by
    simpa [ParseStop.relocate] using this
  exact Relocation.sparing_eq_self_iff.1 (congrArg ParseError.token spared).symm

/-- The token of a fault is one of those that the program was read from. -/
theorem mem_of_interpret_fault {limit : Nat} {s : Scope} {fault : Fault}
    (h : parseWithin room ts = .ok es)
    (hf : (interpret limit es s).result = .error (.fault fault)) : fault.token ∈ ts.toList := by
  have := interpret_relocate (.sparing (· ∈ ts.toList)) limit es
  rw [map_relocate_sparing h] at this
  have result := congrArg Outcome.result (congrFun this s)
  simp only [Run.relocate, Outcome.relocate, hf, mapError_error, Halt.relocate] at result
  have spared : fault = fault.relocate (.sparing (· ∈ ts.toList)) := by simpa using result
  exact Relocation.sparing_eq_self_iff.1 (congrArg Fault.token spared).symm

end Lisplet
