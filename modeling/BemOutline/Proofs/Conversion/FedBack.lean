import BemOutline.Proofs.Conversion.OutlineNode

/-! Written JSON fed back. It is taken for JSON, read as the node that was written, and converted to
what the outline itself is converted to. -/

namespace BemOutline

open Bem Json

variable {s : Settings} {text : String} {n : Node} {target : Format}

theorem exists_toList_pretty (n : Node) : ∃ cs, n.pretty.toList = '\x7b' :: cs := by
  obtain ⟨h, c⟩ := n
  have htext : (Node.mk h c).pretty.toList = prettyOnto 0 (.obj (h.toFields ++ c.toFields)) [] :=
    String.toList_ofList
  rw [htext]
  cases h.toFields ++ c.toFields <;> exact ⟨_, rfl⟩

theorem detect_pretty (n : Node) : Format.detect n.pretty = some .json := by
  obtain ⟨cs, hcs⟩ := exists_toList_pretty n
  rw [Format.detect, hcs]
  rfl

namespace Conversion

theorem Outcome.result_andThen {α β : Type} (o : Outcome α) (f : α → Outcome β) :
    (o.andThen f).result = o.result.bind fun x => (f x).result := by
  rw [andThen]
  cases o.result <;> rfl

theorem result_convertFrom {source : Format} {converter : Converter}
    (h : standard.get? source target = some converter) (s : Settings) (text : String) :
    (convertFrom s text source target).result =
      (converter s text target).result.map fun out => ⟨source, target, out⟩ := by
  rw [convertFrom, h]
  simp only [Outcome.result_andThen]
  cases (converter s text target).result <;> rfl

theorem output_convertFrom {source : Format} {converter : Converter}
    (h : standard.get? source target = some converter) (s : Settings) (text : String) :
    (convertFrom s text source target).result.map (·.output) =
      (converter s text target).result := by
  rw [result_convertFrom h]
  cases (converter s text target).result <;> rfl

theorem output_pseudocode (h : standard.get? .pseudocode target = some fromOutline)
    (s : Settings) (text : String) :
    (tryConvert s text ⟨some .pseudocode, some target⟩).result.map (·.output) =
      (nodeOfOutline s text).result.bind fun n => render s n target :=
  (output_convertFrom h s text).trans (Outcome.result_andThen ..)

theorem output_json (h : standard.get? .json target = some fromJson) {source : Option Format}
    (hsource : source.or (Format.detect text) = some .json) (s : Settings) :
    (tryConvert s text ⟨source, some target⟩).result.map (·.output) =
      (nodeOfJson s text).bind fun n => render s n target := by
  rw [tryConvert, hsource]
  exact (output_convertFrom h s text).trans (Outcome.result_andThen ..)

theorem standard_get?_of_mem (h : target ∈ [.html, .scss, .css]) :
    standard.get? .json target = some fromJson ∧
      standard.get? .pseudocode target = some fromOutline := by
  simp only [List.mem_cons, List.not_mem_nil, or_false] at h
  rcases h with rfl | rfl | rfl <;> exact ⟨rfl, rfl⟩

theorem render_json (s : Settings) (n : Node) : render s n .json = .ok n.pretty := by
  obtain ⟨cs, hcs⟩ := exists_toList_pretty n
  rw [render, renderText]
  exact if_neg (by rw [hcs]; exact Bool.false_ne_true)

theorem exists_converted_iff {out : String} :
    (∃ c, (tryConvert s text ⟨some .pseudocode, some .json⟩).result = .ok c ∧ c.output = out) ↔
      ∃ n, (nodeOfOutline s text).result = .ok n ∧ n.pretty = out := by
  have hjson : standard.get? .pseudocode .json = some fromOutline := rfl
  have hresult : (tryConvert s text ⟨some .pseudocode, some .json⟩).result =
      (fromOutline s text .json).result.map fun out => ⟨.pseudocode, .json, out⟩ :=
    result_convertFrom hjson s text
  rw [hresult, fromOutline, Outcome.result_andThen]
  simp only [render_json]
  cases (nodeOfOutline s text).result with
  | error e =>
    constructor
    · rintro ⟨_, ⟨⟩, _⟩
    · rintro ⟨_, ⟨⟩, _⟩
  | ok n =>
    constructor
    · rintro ⟨_, ⟨⟩, rfl⟩
      exact ⟨n, rfl, rfl⟩
    · rintro ⟨_, ⟨⟩, rfl⟩
      exact ⟨_, rfl, rfl⟩

theorem proper_of_nodeOfOutline (h : (nodeOfOutline s text).result = .ok n) : n.Proper := by
  obtain ⟨a, u, -, -, rfl, hregular, -, -⟩ := exists_document_of_nodeOfOutline h
  exact Tree.proper_toBem (pairwise_modifiers_map_moved hregular)

theorem nodeOfJson_pretty (h : (nodeOfOutline s text).result = .ok n)
    (hnesting : bracketNesting n.pretty ≤ maxOpen) : nodeOfJson s n.pretty = .ok n := by
  obtain ⟨a, u, -, -, rfl, hregular, -, hle⟩ := exists_document_of_nodeOfOutline h
  have hsorted := pairwise_modifiers_map_moved hregular
  have hread := (Tree.proper_toBem hsorted).read_pretty hnesting
  -- what is read is the very value that cleaning left, and a second cleaning leaves it too
  have hclean := clean_withoutBookkeeping_moved (fun l hl => (hregular l hl).named) hle
  rw [nodeOfJson, hread, Tree.arranged_toJson_toBem hsorted]
  simp only
  rw [nodeOfRaw, hclean]
  simp only [Tree.ofJson_withoutBookkeeping hsorted]
  rfl

/-- What an outline is converted to comes out of its JSON as well. -/
theorem output_of_json_output {c : Converted} (htarget : target ∈ [.html, .scss, .css])
    (hc : (tryConvert s text ⟨some .pseudocode, some .json⟩).result = .ok c)
    (hnesting : bracketNesting c.output ≤ 127) :
    Format.detect c.output = some .json ∧
      ∀ source, source = none ∨ source = some .json →
        (tryConvert s c.output ⟨source, some target⟩).result.map (·.output) =
          (tryConvert s text ⟨some .pseudocode, some target⟩).result.map (·.output) := by
  obtain ⟨n, hn, hout⟩ := exists_converted_iff.1 ⟨c, hc, rfl⟩
  rw [← hout] at hnesting ⊢
  refine ⟨detect_pretty n, fun source hsource => ?_⟩
  have hfrom : source.or (Format.detect n.pretty) = some .json := by
    rcases hsource with rfl | rfl
    · exact detect_pretty n
    · rfl
  have hnode := nodeOfJson_pretty hn hnesting
  obtain ⟨hjson, hpseudo⟩ := standard_get?_of_mem htarget
  rw [output_json hjson hfrom, output_pseudocode hpseudo, hnode, hn]

/-- Modifiers that are misread and a text with brackets and quotes. -/
theorem output_of_json_output_list :
    ∃ c, (tryConvert {} "ul--elem--mods\n  li--b*2 \x7b[\"" ⟨some .pseudocode, some .json⟩).result =
        .ok c ∧
      bracketNesting c.output = 4 ∧ Format.detect c.output = some .json ∧
      (tryConvert {} c.output ⟨none, some .html⟩).result.map (·.output) =
        (tryConvert {} "ul--elem--mods\n  li--b*2 \x7b[\"" ⟨some .pseudocode, some .html⟩).result.map
          (·.output) := by
  have hdepth : ((nodeOfOutline {} "ul--elem--mods\n  li--b*2 \x7b[\"").result.map
      fun n => n.toJson.depth).toOption = some 4 := by decide +kernel
  cases hn : (nodeOfOutline {} "ul--elem--mods\n  li--b*2 \x7b[\"").result with
  | error e =>
    rw [hn] at hdepth
    cases hdepth
  | ok n =>
    rw [hn] at hdepth
    obtain ⟨c, hc, hout⟩ := exists_converted_iff.2 ⟨n, hn, rfl⟩
    have hbrackets : bracketNesting c.output = 4 := by
      rw [hout, Node.pretty, (proper_of_nodeOfOutline hn).whole.bracketNesting_pretty]
      exact Option.some.inj hdepth
    have hhtml : Format.html ∈ [.html, .scss, .css] := List.mem_cons_self
    have hfed := output_of_json_output hhtml hc (by omega)
    exact ⟨c, hc, hbrackets, hfed.1, hfed.2 none (.inl rfl)⟩

end Conversion

end BemOutline
