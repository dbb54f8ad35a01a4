import BemOutline.Bem.Decode
import BemOutline.Bem.Encode
import BemOutline.Proofs.Json.Brackets

/-! Nodes are read back from the text that is written for them. What is left out of an object reads
as what was left out. -/

namespace BemOutline.Bem

open Json

variable {h : Head} {c : Content} {n : Node} {l : List Item} {key k : String}
  {fs gs : List (String × Json)}

/-- Heads whose maps have each key once, in ascending order, and hold no number but integers of
sixty-four bits. -/
structure Head.Proper (h : Head) : Prop where
  mods : Json.Proper (.obj h.mods)
  elemMods : Json.Proper (.obj h.elemMods)
  attrs : Json.Proper (.obj h.attrs)

inductive Node.Proper : Node → Prop where
  | mk {h : Head} {c : Content} :
    h.Proper → (∀ n ∈ (Node.mk h c).children, n.Proper) → (Node.mk h c).Proper

theorem field?_textField (k key : String) (o : Option String) :
    field? k (textField key o) = if key = k then o.map .str else none := by
  cases o with
  | none => exact (ite_self none).symm
  | some s => rfl

theorem field?_mapField (k key : String) (fs : List (String × Json)) :
    field? k (mapField key fs) = if key = k ∧ fs ≠ [] then some (.obj fs) else none := by
  cases fs with
  | nil => rw [if_neg fun h => h.2 rfl, mapField, field?]
  | cons f fs => simp [mapField, field?]

theorem textAt_of_field? {o : Option String} (h : field? key fs = o.map .str) :
    textAt key fs = .ok o := by
  rw [textAt, h]
  cases o <;> rfl

theorem mapAt_of_field? {m : List (String × Json)}
    (h : field? key fs = if m = [] then none else some (.obj m)) : mapAt key fs = .ok m := by
  rw [mapAt, h]
  cases m <;> rfl

theorem field?_toFields (h : Head) (k : String) :
    field? k h.toFields =
      (if "block" = k then h.block.map .str else none).or
        ((if "elem" = k then h.elem.map .str else none).or
          ((if "tag" = k then h.tag.map .str else none).or
            ((if "mods" = k ∧ h.mods ≠ [] then some (.obj h.mods) else none).or
              ((if "elemMods" = k ∧ h.elemMods ≠ [] then some (.obj h.elemMods) else none).or
                ((if "cls" = k then h.cls.map .str else none).or
                  (if "attrs" = k ∧ h.attrs ≠ [] then some (.obj h.attrs) else none)))))) := by
  simp only [Head.toFields, field?_append, field?_textField, field?_mapField, Option.or_assoc]

theorem field?_toFields_of_not_mem (hk : k ∉ headKeys) : field? k h.toFields = none := by
  simp only [headKeys, List.mem_cons, List.not_mem_nil, or_false, not_or, eq_comm (a := k)] at hk
  simp [field?_toFields, hk]

theorem Node.ofFields_of_field? (hfs : ∀ k ∈ headKeys, field? k fs = field? k h.toFields)
    (content : Except DecodeError Content) :
    Node.ofFields fs content = content.map (Node.mk h) := by
  have htext : ∀ key ∈ headKeys, ∀ o, field? key h.toFields = Option.map Json.str o →
      textAt key fs = .ok o :=
    fun key hkey o ho => textAt_of_field? ((hfs key hkey).trans ho)
  have hmap : ∀ key ∈ headKeys, ∀ m,
      field? key h.toFields = (if m = [] then none else some (.obj m)) → mapAt key fs = .ok m :=
    fun key hkey m hm => mapAt_of_field? ((hfs key hkey).trans hm)
  have hblock := htext "block" (by decide) h.block (by simp [field?_toFields])
  have helem := htext "elem" (by decide) h.elem (by simp [field?_toFields])
  have htag := htext "tag" (by decide) h.tag (by simp [field?_toFields])
  have hcls := htext "cls" (by decide) h.cls (by simp [field?_toFields])
  have hmods := hmap "mods" (by decide) h.mods (by simp [field?_toFields])
  have helemMods := hmap "elemMods" (by decide) h.elemMods (by simp [field?_toFields])
  have hattrs := hmap "attrs" (by decide) h.attrs (by simp [field?_toFields])
  rw [Node.ofFields, hblock, helem, htag, hcls, hmods, helemMods, hattrs]
  cases content <;> rfl

theorem Reading.contentAmong_eq (fs : List (String × Json)) :
    contentAmong fs =
      match field? "content" fs with
      | none => .ok .none
      | some v => (ofJson v).content := by
  induction fs with
  | nil => rw [contentAmong, field?]
  | cons f fs ih =>
    obtain ⟨k, v⟩ := f
    rw [contentAmong, field?, ih]
    split <;> rfl

theorem nodup_toFields (h : Head) (c : Content) : ((h.toFields ++ c.toFields).map (·.1)).Nodup := by
  have htext : ∀ key o, ((textField key o).map (·.1)).Sublist [key] := by
    intro key o
    cases o with
    | none => exact List.nil_sublist _
    | some s => exact List.Sublist.refl _
  have hmap : ∀ key fs, ((mapField key fs).map (·.1)).Sublist [key] := by
    intro key fs
    cases fs with
    | nil => exact List.nil_sublist _
    | cons f fs => exact List.Sublist.refl _
  have hcontent : (c.toFields.map (·.1)).Sublist ["content"] := by
    cases c with
    | none => exact List.nil_sublist _
    | _ => exact List.Sublist.refl _
  have hall : ((h.toFields ++ c.toFields).map (·.1)).Sublist (headKeys ++ ["content"]) := by
    simp only [Head.toFields, List.map_append]
    exact (((((((htext _ _).append (htext _ _)).append (htext _ _)).append (hmap _ _)).append
      (hmap _ _)).append (htext _ _)).append (hmap _ _)).append hcontent
  exact hall.nodup (by decide)

theorem Head.Proper.of_mem_toFields (hh : h.Proper) {f : String × Json} (hf : f ∈ h.toFields) :
    Json.Proper f.2 := by
  have htext : ∀ key o, f ∈ textField key o → Json.Proper f.2 := by
    intro key o hf
    cases o with
    | none => cases hf
    | some s =>
      rw [List.mem_singleton.1 hf]
      exact .str s
  have hmap : ∀ key fs, Json.Proper (.obj fs) → f ∈ mapField key fs → Json.Proper f.2 := by
    intro key fs hfs hf
    cases fs with
    | nil => cases hf
    | cons g gs =>
      rw [List.mem_singleton.1 hf]
      exact hfs
  simp only [Head.toFields, List.mem_append] at hf
  rcases hf with (((((hf | hf) | hf) | hf) | hf) | hf) | hf
  · exact htext _ _ hf
  · exact htext _ _ hf
  · exact htext _ _ hf
  · exact hmap _ _ hh.mods hf
  · exact hmap _ _ hh.elemMods hf
  · exact htext _ _ hf
  · exact hmap _ _ hh.attrs hf

theorem mem_itemsToJson {v : Json} (hv : v ∈ itemsToJson l) :
    (∃ s, v = .str s) ∨ ∃ n ∈ itemNodes l, v = n.toJson := by
  induction l with
  | nil => cases hv
  | cons i l ih =>
    cases i with
    | text s =>
      rcases List.mem_cons.1 hv with rfl | hv
      · exact .inl ⟨s, rfl⟩
      · exact ih hv
    | node n =>
      rcases List.mem_cons.1 hv with rfl | hv
      · exact .inr ⟨n, List.mem_cons_self, rfl⟩
      · obtain ⟨s, rfl⟩ | ⟨m, hm, rfl⟩ := ih hv
        · exact .inl ⟨s, rfl⟩
        · exact .inr ⟨m, List.mem_cons_of_mem _ hm, rfl⟩

namespace Node.Proper

theorem whole (hn : n.Proper) : Whole n.toJson := by
  induction hn with
  | @mk h c hh _ ih =>
    rw [toJson]
    refine .obj fun f hf => ?_
    rcases List.mem_append.1 hf with hf | hf
    · exact (hh.of_mem_toFields hf).whole
    · cases c with
      | none => cases hf
      | text s =>
        rw [List.mem_singleton.1 hf]
        exact .str s
      | items l =>
        rw [List.mem_singleton.1 hf]
        refine .arr fun v hv => ?_
        obtain ⟨s, rfl⟩ | ⟨m, hm, rfl⟩ := mem_itemsToJson hv
        · exact .str s
        · exact ih m hm
      | node m =>
        rw [List.mem_singleton.1 hf]
        exact ih m List.mem_cons_self

end Node.Proper

theorem Head.Proper.arranged_toJson (hh : h.Proper) (c : Content) :
    (Node.mk h c).toJson.arranged =
      .obj (fieldsOf (h.toFields ++ arrangedFields c.toFields)) := by
  have hhead : arrangedFields h.toFields = h.toFields :=
    arrangedFields_eq_self fun f hf => (hh.of_mem_toFields hf).arranged_eq
  rw [Node.toJson, arranged, arrangedFields_append, hhead, mkObj]

def Node.Decodes (n : Node) : Prop := Node.ofJson n.toJson.arranged = .ok n

theorem Node.Decodes.reading (hn : n.Decodes) :
    Reading.ofJson n.toJson.arranged = ⟨.ok (.node n), .ok (.node n)⟩ := by
  obtain ⟨h, c⟩ := n
  rw [Node.Decodes] at hn
  rw [toJson, arranged, mkObj] at hn ⊢
  rw [Node.ofJson] at hn
  rw [Reading.ofJson, hn, Reading.node]

theorem Reading.items_itemsToJson (hl : ∀ n ∈ itemNodes l, n.Decodes) :
    items (ofEntries ((itemsToJson l).map arranged)) = .ok l := by
  induction l with
  | nil => rfl
  | cons i l ih =>
    cases i with
    | text s =>
      have hrest := ih hl
      rw [itemsToJson, List.map_cons, ofEntries, items, hrest]
      rfl
    | node n =>
      have hrest := ih fun m hm => hl m (List.mem_cons_of_mem _ hm)
      have hn := (hl n List.mem_cons_self).reading
      rw [itemsToJson, List.map_cons, ofEntries, items, hrest, hn]
      rfl

theorem Reading.contentAmong_toFields (hc : ∀ n ∈ (Node.mk h c).children, n.Decodes)
    (hfs : field? "content" fs = field? "content" (arrangedFields c.toFields)) :
    contentAmong fs = .ok c := by
  rw [contentAmong_eq, hfs]
  cases c with
  | none => rfl
  | text s => rfl
  | items l =>
    change (ofJson (arranged (.arr (itemsToJson l)))).content = _
    rw [arranged, arrangedItems_eq, ofJson, list, items_itemsToJson hc]
  | node m =>
    change (ofJson m.toJson.arranged).content = _
    rw [(hc m List.mem_cons_self).reading]

theorem field?_contentFields_of_ne (c : Content) (hk : k ≠ "content") :
    field? k (arrangedFields c.toFields) = none := by
  cases c with
  | none => rfl
  | _ => exact if_neg hk.symm

theorem Node.Proper.decodes (hn : n.Proper) : n.Decodes := by
  induction hn with
  | @mk h c hh _ ih =>
    have hkeys : ((h.toFields ++ arrangedFields c.toFields).map (·.1)).Nodup := by
      rw [List.map_append, keys_arrangedFields, ← List.map_append]
      exact nodup_toFields h c
    -- a key belongs to the head or to the content, never to both
    have hfield : ∀ k, field? k (fieldsOf (h.toFields ++ arrangedFields c.toFields)) =
        (field? k h.toFields).or (field? k (arrangedFields c.toFields)) :=
      fun k => (field?_fieldsOf hkeys k).trans (field?_append ..)
    have hhead : ∀ k ∈ headKeys, field? k (fieldsOf (h.toFields ++ arrangedFields c.toFields)) =
        field? k h.toFields := by
      intro k hk
      have hne : k ≠ "content" := by
        rintro rfl
        exact absurd hk (by decide)
      rw [hfield, field?_contentFields_of_ne c hne, Option.or_none]
    have hcontent : field? "content" (fieldsOf (h.toFields ++ arrangedFields c.toFields)) =
        field? "content" (arrangedFields c.toFields) := by
      rw [hfield, field?_toFields_of_not_mem (by decide), Option.none_or]
    rw [Node.Decodes, hh.arranged_toJson, Node.ofJson, Node.ofFields_of_field? hhead,
      Reading.contentAmong_toFields ih hcontent]
    rfl

theorem Node.Proper.read_pretty (hn : n.Proper) (hnesting : bracketNesting n.pretty ≤ maxOpen) :
    Json.read n.pretty = .ok n.toJson.arranged := by
  have hdepth := hn.whole.bracketNesting_pretty
  rw [Node.pretty] at hnesting ⊢
  exact hn.whole.read_pretty (hdepth ▸ hnesting)

/-- A node is given back by reading its text, if no more brackets nest in it than may be open. -/
theorem Node.ofJson_read_pretty {n : Node} (hn : n.Proper)
    (hnesting : bracketNesting n.pretty ≤ 127) :
    ∃ v, Json.read n.pretty = .ok v ∧ Node.ofJson v = .ok n :=
  ⟨_, hn.read_pretty hnesting, hn.decodes⟩

/-- A list of a text and a node with a single node below it, odd names of modifiers, and attributes
with the least and the greatest number. -/
theorem Node.ofJson_read_pretty_card :
    ∃ n : Node, n.children.length = 1 ∧ bracketNesting n.pretty = 5 ∧
      ∃ v, Json.read n.pretty = .ok v ∧ Node.ofJson v = .ok n := by
  let link : Node := .mk { elem := some "a", cls := some "x \"y\"" } (.text "\x7b[\n\t\u0001")
  let item : Node := .mk
    { block := some "", elem := some "li", elemMods := [("elem", .null), ("mods", .str "ü")] }
    (.node link)
  let card : Node := .mk
    { block := some "card"
      tag := some "div"
      mods := [("content", .arr [.bool true, .obj [("_x", .arr [])]])]
      attrs := [("max", .int (2 ^ 64 - 1)), ("min", .int (-2 ^ 63))] }
    (.items [.text "\\", .node item])
  have hnone : Json.Proper (.obj []) := .obj List.Pairwise.nil fun f hf => nomatch hf
  have hlink : link.Proper := .mk ⟨hnone, hnone, hnone⟩ fun n hn => nomatch hn
  have hitem : item.Proper := by
    refine .mk ⟨hnone, .obj ?_ ?_, hnone⟩ ?_
    · exact List.pairwise_pair.2 (by decide)
    · exact List.forall_mem_cons.2 ⟨.null, List.forall_mem_singleton.2 (.str "ü")⟩
    · exact List.forall_mem_singleton.2 hlink
  have hcard : card.Proper := by
    have hempty : Json.Proper (.arr []) := .arr fun v hv => nomatch hv
    have hinner : Json.Proper (.obj [("_x", .arr [])]) :=
      .obj (List.pairwise_singleton ..) (List.forall_mem_singleton.2 hempty)
    have hlist : Json.Proper (.arr [.bool true, .obj [("_x", .arr [])]]) :=
      .arr (List.forall_mem_cons.2 ⟨.bool true, List.forall_mem_singleton.2 hinner⟩)
    refine .mk ⟨.obj ?_ ?_, hnone, .obj ?_ ?_⟩ ?_
    · exact List.pairwise_singleton ..
    · exact List.forall_mem_singleton.2 hlist
    · exact List.pairwise_pair.2 (by decide)
    · refine List.forall_mem_cons.2 ⟨.int ?_ ?_, List.forall_mem_singleton.2 (.int ?_ ?_)⟩ <;>
        decide
    · exact List.forall_mem_singleton.2 hitem
  have hnesting : bracketNesting card.pretty = 5 := by
    rw [Node.pretty, hcard.whole.bracketNesting_pretty]
    rfl
  refine ⟨card, rfl, hnesting, Node.ofJson_read_pretty hcard ?_⟩
  rw [hnesting]
  decide

end BemOutline.Bem
