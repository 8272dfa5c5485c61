import Lisplet.Proofs.Places.Lines
import Lisplet.Proofs.Segmentation.Joined

/-!
# Tokens of a text are distinct

Every token takes up room in its text, so no two tokens of a text stand at the same place, and no
token occurs twice (`nodup_of_tokenize`): a token of a text is told by its index.
-/

namespace Lisplet

namespace Place

theorem column_advance {p : Place} {cs : List Char} (h : '\n' ∉ cs) :
    (p.advance cs).column = p.column + cs.length := by
  induction cs generalizing p with
  | nil => rfl
  | cons c cs ih =>
    simp only [List.mem_cons, not_or] at h
    have step : (p.step c).column = p.column + 1 := by rw [step, if_neg (Ne.symm h.1)]
    rw [advance_cons, ih h.2, step, List.length_cons]
    omega

/-- Behind a text that is not empty stands another place: further down, or else further right. -/
theorem advance_ne_self {p : Place} {cs : List Char} (h : cs ≠ []) : p.advance cs ≠ p := by
  intro same
  by_cases feed : '\n' ∈ cs
  · have down := congrArg Place.line same
    have := List.count_pos_iff.2 feed
    rw [line_advance] at down
    omega
  · have right := congrArg Place.column same
    have := List.length_pos_iff.2 h
    rw [column_advance feed] at right
    omega

end Place

theorem Token.place_eq_of_placedAt {p q : Place} {k k' : Kind} {s s' : String} {v v' : Value}
    (h : Token.placedAt p k s v = Token.placedAt q k' s' v') : p = q := by
  simp only [placedAt, Token.mk.injEq, Int.natCast_inj] at h
  obtain ⟨-, -, -, line, column⟩ := h
  cases p
  cases q
  simp_all

theorem Segment.nodup_tokens {p : Place} {ss : List Segment} (h : ∀ s ∈ ss, s.text ≠ []) :
    (tokens p ss).Nodup := by
  induction ss generalizing p with
  | nil => exact List.nodup_nil
  | cons s ss ih =>
    obtain ⟨ne, others⟩ := List.forall_mem_cons.1 h
    have behind : (tokens (p.advance s.text) ss).Nodup := ih others
    cases s with
    | blank c => exact behind
    | comment text => exact behind
    | lexeme k text =>
      refine List.nodup_cons.2 ⟨fun mem => ?_, behind⟩
      -- A token further on stands behind this lexeme.
      obtain ⟨before, k', text', after, -, same⟩ := mem_tokens_iff.1 mem
      have place := Token.place_eq_of_placedAt same
      rw [← Place.advance_append] at place
      exact Place.advance_ne_self (List.append_ne_nil_of_left_ne_nil ne _) place.symm

/-- No token of a source occurs twice. -/
theorem nodup_of_tokenize {source : String} {ts : Tokens} (h : tokenize source = .ok ts) :
    ts.toList.Nodup := by
  obtain ⟨ss, cuts, ahead, -⟩ := exists_cuts_of_tokenize h
  have kinds := kind_ne_eof_of_tokenize h
  refine List.nodup_append.2 ⟨?_, List.pairwise_singleton _ ts.last, fun t mem u last same => ?_⟩
  · rw [ahead]
    exact Segment.nodup_tokens cuts.text_ne_nil
  · refine kinds t mem ?_
    rw [same, List.mem_singleton.1 last, ts.last_kind]

end Lisplet
