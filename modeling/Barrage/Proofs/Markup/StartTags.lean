import Barrage.Proofs.Markup.Slices

/-!
Start tags and elements. The lexer counts start tags, and where its tokens make up a document there
is one for each element.
-/

set_option autoImplicit false

namespace Barrage.Markup

def Token.opens : Token → Bool
  | .openTag _ => true
  | _ => false

theorem LexMetrics.elements_count (m : LexMetrics) (t : Token) :
    (m.count t).elements = m.elements + if t.opens then 1 else 0 := by
  cases t <;> simp only [count, Token.opens, countText] <;> first | rfl | (split <;> rfl)

theorem LexMetrics.ofTokens_eq_countP {part : LexMetrics → Nat} {kind : Token → Bool}
    (step : ∀ m t, part (count m t) = part m + if kind t then 1 else 0) (start : part {} = 0)
    (tokens : Array SpannedToken) :
    part (ofTokens tokens) = tokens.toList.countP fun t => kind t.value := by
  have counted : ∀ (ts : List SpannedToken) (m : LexMetrics),
      part (ts.foldl (fun m t => m.count t.value) m) =
        part m + ts.countP fun t => kind t.value := by
    intro ts
    induction ts with
    | nil => exact fun m => rfl
    | cons t ts ih =>
      intro m
      rw [List.foldl_cons, ih, step, List.countP_cons]
      omega
  rw [ofTokens, ← Array.foldl_toList, counted, start, Nat.zero_add]

theorem LexMetrics.elements_ofTokens (tokens : Array SpannedToken) :
    (ofTokens tokens).elements = tokens.toList.countP fun t => t.value.opens :=
  ofTokens_eq_countP elements_count rfl tokens

theorem countP_tagTokens (name : String) (span : Span) (attributes : List Attribute) :
    (tagTokens name span attributes).countP (fun t => t.value.opens) = 1 := by
  rw [tagTokens, List.countP_cons, List.countP_map, List.countP_eq_zero.2]
  · rfl
  · intro a _
    simp [Attribute.token, Token.opens]

theorem not_opens_of_characterData {t : Token} {content : String}
    (data : t.characterData? = some content) : t.opens = false := by
  cases t <;> first | rfl | cases data

mutual

theorem IsElement.countP_opens {tokens : List SpannedToken} {e : Element} : IsElement tokens e →
    tokens.countP (fun t => t.value.opens) = e.size
  | .empty _ => by
    rw [List.countP_append, countP_tagTokens]
    rfl
  | .full _ content => by
    rw [List.countP_append, List.countP_append, countP_tagTokens, List.countP_cons,
      content.countP_opens]
    rfl

theorem IsContent.countP_opens {tokens : List SpannedToken} {children : List Content} :
    IsContent tokens children → tokens.countP (fun t => t.value.opens) = Element.sizes children
  | .nil => rfl
  | .element first others => by
    rw [List.countP_append, first.countP_opens, others.countP_opens]
    rfl
  | .text data _ others => by
    rw [List.countP_cons, not_opens_of_characterData data, others.countP_opens, Element.sizes,
      Element.sizeOfContent, Nat.zero_add]
    rfl
  | .blank data _ others => by
    rw [List.countP_cons, not_opens_of_characterData data, others.countP_opens]
    rfl

end

theorem IsElement.distinct {tokens : List SpannedToken} {e : Element} :
    IsElement tokens e → (e.attributes.map Attribute.name).Nodup
  | .empty proper => proper.distinct
  | .full proper _ => proper.distinct

theorem distinct_of_readDocument {tokens : Array SpannedToken} {source? : Option SourceMap}
    {root : Element} {depth : Nat}
    (read : readDocument (.ofTokens tokens source?) = (.ok root, depth)) :
    ∀ e ∈ root.elements, (e.attributes.map Attribute.name).Nodup := by
  intro e inside
  obtain ⟨isRoot, -⟩ := ((reads_wellFormed tokens source?).1 root depth).1 read
  obtain ⟨_, _, _, -, element⟩ := isRoot.stretch inside
  exact element.distinct

theorem elements_of_metrics {source : String} {source? : Option SourceMap} {root : Element}
    {depth : Nat} (accepted : (Lexing.ofSource source).outcome = .ok ())
    (read : readDocument (.ofTokens (Lexing.ofSource source).tokens source?) = (.ok root, depth)) :
    (Lexing.ofSource source).metrics.elements = root.size := by
  obtain ⟨tokens, c, run, ended, all⟩ := Lexer.run_of_readAll accepted
  change (Lexing.ofSource source).tokens = _ at all
  rw [all] at read
  obtain ⟨isRoot, -⟩ := ((reads_wellFormed _ source?).1 root depth).1 read
  rw [beforeEnd_of_run run rfl] at isRoot
  rw [Lexing.metrics, LexMetrics.elements_ofTokens, all, Array.toList_push, List.countP_append,
    ← isRoot.countP_opens, List.countP_filter]
  refine List.countP_congr fun t _ => ?_
  cases t.value <;> simp [Token.opens, Token.isTrivia]

end Barrage.Markup
