import ArticleArchive.Proofs.Query.Chain
import ArticleArchive.Proofs.Query.Scan
import ArticleArchive.Proofs.Query.Tiling
import ArticleArchive.Query.Validity

namespace ArticleArchive

theorem Lexeme.unknown_notMem_of_ofText {raw : Text} {ls : List Lexeme}
    (h : ofText raw = .ok ls) : Token.unknown ∉ ls.map (·.token) := by
  intro hm
  obtain ⟨l, hl, hk⟩ := List.mem_map.mp hm
  have hs := (ofText_tiles h).spelled_source (p := []) rfl rfl l hl
  rw [hk] at hs
  cases hs

theorem Chain.noFault_ofTokens {ts : List Token} (h : .unknown ∉ ts) :
    NoFault (Chain.ofTokens ts) :=
  fun _ hf => h (ofTokens_fault hf).2

namespace Query

theorem noFault_ofTokens {ts : List Token} (h : .unknown ∉ ts) : NoFault (ofTokens ts) := by
  refine (Chain.noFault_ofTokens h).bind fun s _ f hf => ?_
  obtain ⟨e, -, he⟩ := mapError_eq_error_iff.mp hf
  simp [Failure.malformed] at he

theorem noFault_parse (raw : Text) : NoFault (parse raw) :=
  (Lexeme.complainsOfForm_ofText raw).noFault.bind fun _ h =>
    noFault_ofTokens (Lexeme.unknown_notMem_of_ofText h)

theorem noFault_compile (raw : Text) : NoFault (compile raw) := by
  refine (noFault_parse raw).bind fun q _ => ?_
  split <;> exact nofun

/-- A query text is compiled or rejected. While it is scanned every quote finds its partner, if
their number is even, and every token takes at least one character; a clause waits on the chain
wherever `OR` takes one from it; and every token of a text is one that the chain knows. -/
theorem compile_ok_or_rejected (raw : Text) :
    ((∃ q, compile raw = .ok q) ∨ ∃ r, compile raw = .error (.rejected r)) ∧
    (raw.count '"' % 2 = 0 → ∀ n c t, Lexeme.Reached raw n (c :: t) → Text.isBlank c = false →
      NoFault (Lexeme.scanToken (c :: t))) ∧
    (∀ n c t k rest, Lexeme.Reached raw n (c :: t) → Text.isBlank c = false →
      Lexeme.scanToken (c :: t) = .ok (k, rest) → rest.length < (c :: t).length) ∧
    (∀ ls, Lexeme.ofText raw = .ok ls → ∀ l ∈ ls, l.start < l.stop) ∧
    (∀ ts, Chain.ofTokens ts ≠ .error (.fault .emptyChain)) ∧
    (∀ ls, Lexeme.ofText raw = .ok ls → NoFault (Chain.ofTokens (ls.map (·.token)))) := by
  refine ⟨(noFault_compile raw).ok_or_rejected, fun hraw n c t hr _ => ?_,
    fun n c t k rest _ hc hk => Lexeme.scanToken_length hc hk, fun ls h l hl => ?_,
    fun ts h => ?_, fun ls h => ?_⟩
  · exact (Lexeme.complainsOfForm_scanToken (hr.balanced hraw)).noFault
  · exact ((Lexeme.ofText_tiles h).bounds l hl).2.1
  · simpa using (Chain.ofTokens_fault h).1
  · exact Chain.noFault_ofTokens (Lexeme.unknown_notMem_of_ofText h)

end Query

end ArticleArchive
