import BemOutline.Bem.Decode
import BemOutline.Proofs.Json.Fields
import BemOutline.Proofs.Results

/-! What a value is read as, and what is refused, by rules on the value alone.

The content of a node follows its field: nothing and null are no content, a text is a text, an
object is a node, a list is a list of as many items. Below the top, though, a list may also be a
node written as the list of its fields: as an item, and as the whole content if one of its entries
is no item. -/

namespace BemOutline.Bem

open Json

variable {h : Head} {c : Content} {n : Node} {i : Item} {v : Json} {l : List Json}
  {fs : List (String × Json)} {k : String} {lists : Bool}

structure Head.ReadFrom (h : Head) (fs : List (String × Json)) : Prop where
  attrs : mapAt "attrs" fs = .ok h.attrs
  block : textAt "block" fs = .ok h.block
  cls : textAt "cls" fs = .ok h.cls
  elem : textAt "elem" fs = .ok h.elem
  elemMods : mapAt "elemMods" fs = .ok h.elemMods
  mods : mapAt "mods" fs = .ok h.mods
  tag : textAt "tag" fs = .ok h.tag

def fieldKeys : List String := headKeys ++ ["content"]

def listedFields (l : List Json) : List (String × Json) := fieldKeys.zip l

mutual

inductive NoNode : List (String × Json) → Prop
  | head {fs : List (String × Json)} : (∀ h : Head, ¬ h.ReadFrom fs) → NoNode fs
  | content {fs : List (String × Json)} {v : Json} :
    field? "content" fs = some v → NoContent v → NoNode fs

inductive NoContent : Json → Prop
  | bool (b : Bool) : NoContent (.bool b)
  | int (n : Int) : NoContent (.int n)
  | float (x : Float) : NoContent (.float x)
  | node {fs : List (String × Json)} : NoNode fs → NoContent (.obj fs)
  | list {l : List Json} {v : Json} : v ∈ l → NoItem v →
    (l.length ≤ fieldKeys.length → NoNode (listedFields l)) → NoContent (.arr l)

inductive NoItem : Json → Prop
  | null : NoItem .null
  | bool (b : Bool) : NoItem (.bool b)
  | int (n : Int) : NoItem (.int n)
  | float (x : Float) : NoItem (.float x)
  | node {fs : List (String × Json)} : NoNode fs → NoItem (.obj fs)
  | list {l : List Json} :
    (l.length ≤ fieldKeys.length → NoNode (listedFields l)) → NoItem (.arr l)

end

mutual

/-- The node that stands in some fields. The flag says whether a list may be a node, too. -/
inductive IsNode (lists : Bool) : List (String × Json) → Node → Prop
  | bare {fs : List (String × Json)} {h : Head} : h.ReadFrom fs → field? "content" fs = none →
    IsNode lists fs (.mk h .none)
  | mk {fs : List (String × Json)} {h : Head} {v : Json} {c : Content} : h.ReadFrom fs →
    field? "content" fs = some v → IsContent lists v c → IsNode lists fs (.mk h c)

inductive IsContent (lists : Bool) : Json → Content → Prop
  | null : IsContent lists .null .none
  | text (s : String) : IsContent lists (.str s) (.text s)
  | node {fs : List (String × Json)} {n : Node} : IsNode lists fs n →
    IsContent lists (.obj fs) (.node n)
  | items {l : List Json} {items : List Item} : List.Forall₂ (IsItem lists) l items →
    IsContent lists (.arr l) (.items items)
  | list {l : List Json} {v : Json} {n : Node} : lists = true → v ∈ l → NoItem v →
    l.length ≤ fieldKeys.length → IsNode lists (listedFields l) n →
    IsContent lists (.arr l) (.node n)

inductive IsItem (lists : Bool) : Json → Item → Prop
  | text (s : String) : IsItem lists (.str s) (.text s)
  | node {fs : List (String × Json)} {n : Node} : IsNode lists fs n →
    IsItem lists (.obj fs) (.node n)
  | list {l : List Json} {n : Node} : lists = true → l.length ≤ fieldKeys.length →
    IsNode lists (listedFields l) n → IsItem lists (.arr l) (.node n)

end

/-- Contents with a list, at any depth, that has a list or no item among its entries: if they are
read at all, then that list or its entry is read as a node. -/
inductive ListsNode : Json → Prop
  | node {fs : List (String × Json)} {v : Json} :
    field? "content" fs = some v → ListsNode v → ListsNode (.obj fs)
  | entry {l : List Json} {v : Json} : v ∈ l → ListsNode v → ListsNode (.arr l)
  | list {l l' : List Json} : .arr l' ∈ l → ListsNode (.arr l)
  | noItem {l : List Json} {v : Json} : v ∈ l → NoItem v → ListsNode (.arr l)

theorem exists_of_forall₂ {α β : Type} {R : α → β → Prop} {as : List α} {bs : List β} {a : α}
    (h : List.Forall₂ R as bs) (ha : a ∈ as) : ∃ b, R a b := by
  induction h with
  | nil => cases ha
  | @cons a' b as bs hab _ ih =>
    rcases List.mem_cons.1 ha with rfl | ha
    · exact ⟨b, hab⟩
    · exact ih ha

theorem Node.ofFields_eq_ok_iff {content : Except DecodeError Content} :
    Node.ofFields fs content = .ok (.mk h c) ↔ h.ReadFrom fs ∧ content = .ok c := by
  unfold Node.ofFields
  simp only [bind_eq_ok_iff]
  constructor
  · rintro ⟨attrs, hattrs, block, hblock, cls, hcls, c', hc, elem, helem, elemMods, helemMods,
      mods, hmods, tag, htag, hn⟩
    cases hn
    exact ⟨⟨hattrs, hblock, hcls, helem, helemMods, hmods, htag⟩, hc⟩
  · rintro ⟨hh, hc⟩
    exact ⟨_, hh.attrs, _, hh.block, _, hh.cls, _, hc, _, hh.elem, _, hh.elemMods, _, hh.mods, _,
      hh.tag, rfl⟩

theorem mem_of_field?_listedFields (hv : field? k (listedFields l) = some v) : v ∈ l :=
  (List.of_mem_zip (mem_of_field? hv)).2

theorem field?_zip_append {last : String} (hk : k ≠ last) (ks : List String) (l : List Json) :
    field? k ((ks ++ [last]).zip l) = field? k (ks.zip l) := by
  induction ks generalizing l with
  | nil =>
    cases l with
    | nil => rfl
    | cons v l => exact if_neg hk.symm
  | cons k' ks ih =>
    cases l with
    | nil => rfl
    | cons v l =>
      rw [List.cons_append, List.zip_cons_cons, List.zip_cons_cons, field?, field?, ih]

theorem Node.ofFields_zip_headKeys (l : List Json) (content : Except DecodeError Content) :
    Node.ofFields (headKeys.zip l) content = Node.ofFields (listedFields l) content := by
  have hfield : ∀ k, k ≠ "content" → field? k (headKeys.zip l) = field? k (listedFields l) :=
    fun k hk => (field?_zip_append hk headKeys l).symm
  unfold Node.ofFields textAt mapAt
  simp only [hfield _ (by decide : "attrs" ≠ "content"), hfield _ (by decide : "block" ≠ "content"),
    hfield _ (by decide : "cls" ≠ "content"), hfield _ (by decide : "elem" ≠ "content"),
    hfield _ (by decide : "elemMods" ≠ "content"), hfield _ (by decide : "mods" ≠ "content"),
    hfield _ (by decide : "tag" ≠ "content")]

namespace Reading

theorem contentBehind_eq {ks : List String} (hks : "content" ∉ ks) (l : List Json) :
    contentBehind ks.length (ofEntries l) =
      if l.length ≤ ks.length + 1 then contentAmong ((ks ++ ["content"]).zip l)
      else .error .badContent := by
  induction ks generalizing l with
  | nil =>
    match l with
    | [] => rfl
    | [v] => rfl
    | v :: w :: l => exact (if_neg (by simp)).symm
  | cons k ks ih =>
    rw [List.mem_cons, not_or] at hks
    cases l with
    | nil => rfl
    | cons v l =>
      have hk : ¬ k = "content" := fun he => hks.1 he.symm
      rw [ofEntries, List.length_cons, contentBehind, ih hks.2, List.cons_append,
        List.zip_cons_cons, contentAmong, if_neg hk]
      simp only [List.length_cons, Nat.add_le_add_iff_right]

theorem ofFields_list_eq_ok_iff :
    Node.ofFields (headKeys.zip l) (contentBehind headKeys.length (ofEntries l)) = .ok n ↔
      l.length ≤ fieldKeys.length ∧ Node.ofJson (.obj (listedFields l)) = .ok n := by
  have hlength : fieldKeys.length = headKeys.length + 1 := rfl
  obtain ⟨h, c⟩ := n
  rw [Node.ofFields_zip_headKeys, contentBehind_eq (by decide), Node.ofJson, hlength]
  by_cases hl : l.length ≤ headKeys.length + 1
  · rw [if_pos hl]
    exact ⟨fun hn => ⟨hl, hn⟩, And.right⟩
  · rw [if_neg hl, Node.ofFields_eq_ok_iff]
    exact ⟨fun hn => (nomatch hn.2), fun hn => absurd hn.1 hl⟩

theorem content_node_eq_ok_iff {r : Except DecodeError Node} :
    (node r).content = .ok c ↔ ∃ n, r = .ok n ∧ c = .node n := by
  cases r with
  | error e => exact ⟨fun hc => (nomatch hc), fun ⟨_, hn, _⟩ => (nomatch hn)⟩
  | ok n =>
    constructor
    · intro hc
      cases hc
      exact ⟨n, rfl, rfl⟩
    · rintro ⟨_, hn, rfl⟩
      cases hn
      rfl

theorem item_node_eq_ok_iff {r : Except DecodeError Node} :
    (node r).item = .ok i ↔ ∃ n, r = .ok n ∧ i = .node n := by
  cases r with
  | error e => exact ⟨fun hc => (nomatch hc), fun ⟨_, hn, _⟩ => (nomatch hn)⟩
  | ok n =>
    constructor
    · intro hc
      cases hc
      exact ⟨n, rfl, rfl⟩
    · rintro ⟨_, hn, rfl⟩
      cases hn
      rfl

theorem content_obj_eq_ok_iff :
    (ofJson (.obj fs)).content = .ok c ↔ ∃ n, Node.ofJson (.obj fs) = .ok n ∧ c = .node n := by
  rw [ofJson]
  exact content_node_eq_ok_iff

theorem item_obj_eq_ok_iff :
    (ofJson (.obj fs)).item = .ok i ↔ ∃ n, Node.ofJson (.obj fs) = .ok n ∧ i = .node n := by
  rw [ofJson]
  exact item_node_eq_ok_iff

theorem items_eq_ok_iff {items' : List Item} :
    items (ofEntries l) = .ok items' ↔
      List.Forall₂ (fun v i => (ofJson v).item = .ok i) l items' := by
  induction l generalizing items' with
  | nil =>
    rw [List.forall₂_nil_left_iff]
    exact ⟨fun h => by cases h; rfl, fun h => by rw [h]; rfl⟩
  | cons v l ih =>
    rw [ofEntries, items, bind_eq_ok_iff, List.forall₂_cons_left_iff]
    constructor
    · rintro ⟨i, hi, hrest⟩
      obtain ⟨rest, hr, hitems⟩ := bind_eq_ok_iff.1 hrest
      cases hitems
      exact ⟨i, rest, hi, ih.1 hr, rfl⟩
    · rintro ⟨i, rest, hi, hrest, rfl⟩
      exact ⟨i, hi, bind_eq_ok_iff.2 ⟨rest, ih.2 hrest, rfl⟩⟩

theorem item_list_eq_ok_iff :
    (ofJson (.arr l)).item = .ok i ↔
      ∃ n, (l.length ≤ fieldKeys.length ∧ Node.ofJson (.obj (listedFields l)) = .ok n) ∧
        i = .node n := by
  have hitem : (ofJson (.arr l)).item =
      (node (Node.ofFields (headKeys.zip l)
        (contentBehind headKeys.length (ofEntries l)))).item := by
    rw [ofJson, list]
    cases items (ofEntries l) <;> rfl
  rw [hitem, item_node_eq_ok_iff]
  simp only [ofFields_list_eq_ok_iff]

theorem content_list_of_items {items' : List Item} (hi : items (ofEntries l) = .ok items') :
    (ofJson (.arr l)).content = .ok (.items items') := by
  rw [ofJson, list, hi]

theorem content_list_eq_ok_iff (hv : v ∈ l) (hi : ∀ i, (ofJson v).item ≠ .ok i) :
    (ofJson (.arr l)).content = .ok c ↔
      ∃ n, (l.length ≤ fieldKeys.length ∧ Node.ofJson (.obj (listedFields l)) = .ok n) ∧
        c = .node n := by
  have hno : ∀ items', items (ofEntries l) ≠ .ok items' := by
    intro items' he
    obtain ⟨i, hiv⟩ := exists_of_forall₂ (items_eq_ok_iff.1 he) hv
    exact hi i hiv
  have hcontent : (ofJson (.arr l)).content =
      (node (Node.ofFields (headKeys.zip l)
        (contentBehind headKeys.length (ofEntries l)))).content := by
    rw [ofJson, list]
    cases he : items (ofEntries l) with
    | error e => rfl
    | ok items' => exact absurd he (hno items')
  rw [hcontent, content_node_eq_ok_iff]
  simp only [ofFields_list_eq_ok_iff]

end Reading

def entries : Json → List Json
  | .arr l => l
  | .obj fs => fs.map (·.2)
  | _ => []

theorem entries_induction {P : Json → Prop} (h : ∀ v, (∀ w ∈ entries v, P w) → P v) (v : Json) :
    P v := by
  have hsize : ∀ w ∈ entries v, sizeOf w < sizeOf v := by
    intro w hw
    cases v with
    | arr l =>
      have hl : sizeOf w < sizeOf l := List.sizeOf_lt_of_mem hw
      rw [Json.arr.sizeOf_spec]
      omega
    | obj fs =>
      obtain ⟨⟨k, w'⟩, hf, rfl⟩ := List.mem_map.1 hw
      have hl := List.sizeOf_lt_of_mem hf
      rw [Prod.mk.sizeOf_spec] at hl
      rw [Json.obj.sizeOf_spec]
      dsimp only
      omega
    | _ => cases hw
  exact h v fun w hw =>
    have := hsize w hw
    entries_induction h w
termination_by sizeOf v

theorem mem_entries_of_field? (hv : field? k fs = some v) : v ∈ entries (.obj fs) :=
  List.mem_map.2 ⟨_, mem_of_field? hv, rfl⟩

theorem contentAmong_of_none (hfs : field? "content" fs = none) :
    Reading.contentAmong fs = .ok .none := by
  induction fs with
  | nil => rfl
  | cons f fs ih =>
    obtain ⟨k, v⟩ := f
    rw [field?] at hfs
    rw [Reading.contentAmong]
    split at hfs
    · cases hfs
    · next hk => rw [if_neg hk, ih hfs]

theorem contentAmong_of_some (hfs : field? "content" fs = some v) :
    Reading.contentAmong fs = (Reading.ofJson v).content := by
  induction fs with
  | nil => cases hfs
  | cons f fs ih =>
    obtain ⟨k, w⟩ := f
    rw [field?] at hfs
    rw [Reading.contentAmong]
    split at hfs
    · next hk =>
      cases hfs
      rw [if_pos hk]
    · next hk => rw [if_neg hk, ih hfs]

def Settled (v : Json) : Prop :=
  ((∃ c, IsContent true v c) ∨ NoContent v) ∧ ((∃ i, IsItem true v i) ∨ NoItem v)

theorem isNode_or_noNode (hfs : ∀ v, field? "content" fs = some v → Settled v) :
    (∃ n, IsNode true fs n) ∨ NoNode fs := by
  by_cases hh : ∃ h : Head, h.ReadFrom fs
  · obtain ⟨h, hh⟩ := hh
    cases hc : field? "content" fs with
    | none => exact .inl ⟨_, .bare hh hc⟩
    | some v =>
      rcases (hfs v hc).1 with ⟨c, hv⟩ | hv
      · exact .inl ⟨_, .mk hh hc hv⟩
      · exact .inr (.content hc hv)
  · exact .inr (.head fun h hr => hh ⟨h, hr⟩)

theorem isItems_or_noItem (hl : ∀ v ∈ l, Settled v) :
    (∃ items, List.Forall₂ (IsItem true) l items) ∨ ∃ v ∈ l, NoItem v := by
  induction l with
  | nil => exact .inl ⟨[], .nil⟩
  | cons v l ih =>
    rcases (hl v List.mem_cons_self).2 with ⟨i, hi⟩ | hv
    · rcases ih fun w hw => hl w (List.mem_cons_of_mem _ hw) with ⟨items, hitems⟩ | ⟨w, hw, hno⟩
      · exact .inl ⟨i :: items, .cons hi hitems⟩
      · exact .inr ⟨w, List.mem_cons_of_mem _ hw, hno⟩
    · exact .inr ⟨v, List.mem_cons_self, hv⟩

theorem settled (v : Json) : Settled v := by
  induction v using entries_induction with
  | h v ih =>
    cases v with
    | null => exact ⟨.inl ⟨_, .null⟩, .inr .null⟩
    | bool b => exact ⟨.inr (.bool b), .inr (.bool b)⟩
    | int n => exact ⟨.inr (.int n), .inr (.int n)⟩
    | float x => exact ⟨.inr (.float x), .inr (.float x)⟩
    | str s => exact ⟨.inl ⟨_, .text s⟩, .inl ⟨_, .text s⟩⟩
    | obj fs =>
      rcases isNode_or_noNode fun v hv => ih v (mem_entries_of_field? hv) with ⟨n, hn⟩ | hn
      · exact ⟨.inl ⟨_, .node hn⟩, .inl ⟨_, .node hn⟩⟩
      · exact ⟨.inr (.node hn), .inr (.node hn)⟩
    | arr l =>
      -- the list as a node of its own
      have hnode : (l.length ≤ fieldKeys.length ∧ ∃ n, IsNode true (listedFields l) n) ∨
          (l.length ≤ fieldKeys.length → NoNode (listedFields l)) := by
        by_cases hl : l.length ≤ fieldKeys.length
        · rcases isNode_or_noNode fun v hv => ih v (mem_of_field?_listedFields hv) with hn | hn
          · exact .inl ⟨hl, hn⟩
          · exact .inr fun _ => hn
        · exact .inr fun h => absurd h hl
      constructor
      · rcases isItems_or_noItem ih with ⟨items, hitems⟩ | ⟨v, hv, hno⟩
        · exact .inl ⟨_, .items hitems⟩
        · rcases hnode with ⟨hl, n, hn⟩ | hn
          · exact .inl ⟨_, .list rfl hv hno hl hn⟩
          · exact .inr (.list hv hno hn)
      · rcases hnode with ⟨hl, n, hn⟩ | hn
        · exact .inl ⟨_, .list rfl hl hn⟩
        · exact .inr (.list hn)

/-- What the rules say of a value in its two places is what the reader says. -/
structure RulesHold (v : Json) : Prop where
  isContent : ∀ lists c, IsContent lists v c → (Reading.ofJson v).content = .ok c
  noContent : NoContent v → ∀ c, (Reading.ofJson v).content ≠ .ok c
  isItem : ∀ lists i, IsItem lists v i → (Reading.ofJson v).item = .ok i
  noItem : NoItem v → ∀ i, (Reading.ofJson v).item ≠ .ok i

theorem ofJson_of_isNode (hfs : ∀ v, field? "content" fs = some v → RulesHold v)
    (hn : IsNode lists fs n) : Node.ofJson (.obj fs) = .ok n := by
  cases hn with
  | bare hh hc => exact Node.ofFields_eq_ok_iff.2 ⟨hh, contentAmong_of_none hc⟩
  | mk hh hc hv =>
    have hcontent := (hfs _ hc).isContent _ _ hv
    exact Node.ofFields_eq_ok_iff.2 ⟨hh, (contentAmong_of_some hc).trans hcontent⟩

theorem ofJson_of_noNode (hfs : ∀ v, field? "content" fs = some v → RulesHold v) (hn : NoNode fs)
    (n : Node) : Node.ofJson (.obj fs) ≠ .ok n := by
  obtain ⟨h, c⟩ := n
  intro he
  obtain ⟨hh, hcontent⟩ := Node.ofFields_eq_ok_iff.1 he
  cases hn with
  | head hno => exact hno h hh
  | content hc hv =>
    rw [contentAmong_of_some hc] at hcontent
    exact (hfs _ hc).noContent hv c hcontent

theorem items_of_forall₂ {items : List Item} (hl : ∀ v ∈ l, RulesHold v)
    (h : List.Forall₂ (IsItem lists) l items) :
    Reading.items (Reading.ofEntries l) = .ok items := by
  rw [Reading.items_eq_ok_iff]
  induction h with
  | nil => exact .nil
  | @cons v i l items hi _ ih =>
    have hv := (hl v List.mem_cons_self).isItem _ _ hi
    exact .cons hv (ih fun w hw => hl w (List.mem_cons_of_mem _ hw))

theorem rulesHold_obj (hfs : ∀ v, field? "content" fs = some v → RulesHold v) :
    RulesHold (.obj fs) where
  isContent := by
    rintro lists c (_ | _ | hn | _ | _)
    exact Reading.content_obj_eq_ok_iff.2 ⟨_, ofJson_of_isNode hfs hn, rfl⟩
  noContent := by
    rintro (_ | _ | _ | hn | _) c hc
    obtain ⟨n, he, -⟩ := Reading.content_obj_eq_ok_iff.1 hc
    exact ofJson_of_noNode hfs hn n he
  isItem := by
    rintro lists i (_ | hn | _)
    exact Reading.item_obj_eq_ok_iff.2 ⟨_, ofJson_of_isNode hfs hn, rfl⟩
  noItem := by
    rintro (_ | _ | _ | _ | hn | _) i hi
    obtain ⟨n, he, -⟩ := Reading.item_obj_eq_ok_iff.1 hi
    exact ofJson_of_noNode hfs hn n he

theorem rulesHold_arr (hl : ∀ v ∈ l, RulesHold v) : RulesHold (.arr l) := by
  have hfs : ∀ v, field? "content" (listedFields l) = some v → RulesHold v :=
    fun v hv => hl v (mem_of_field?_listedFields hv)
  constructor
  · rintro lists c (_ | _ | _ | hitems | ⟨-, hv, hno, hlen, hn⟩)
    · exact Reading.content_list_of_items (items_of_forall₂ hl hitems)
    · rw [Reading.content_list_eq_ok_iff hv ((hl _ hv).noItem hno)]
      exact ⟨_, ⟨hlen, ofJson_of_isNode hfs hn⟩, rfl⟩
  · rintro (_ | _ | _ | _ | ⟨hv, hno, hn⟩) c hc
    rw [Reading.content_list_eq_ok_iff hv ((hl _ hv).noItem hno)] at hc
    obtain ⟨n, ⟨hlen, he⟩, -⟩ := hc
    exact ofJson_of_noNode hfs (hn hlen) n he
  · rintro lists i (_ | _ | ⟨-, hlen, hn⟩)
    exact Reading.item_list_eq_ok_iff.2 ⟨_, ⟨hlen, ofJson_of_isNode hfs hn⟩, rfl⟩
  · rintro (_ | _ | _ | _ | _ | hn) i hi
    obtain ⟨n, ⟨hlen, he⟩, -⟩ := Reading.item_list_eq_ok_iff.1 hi
    exact ofJson_of_noNode hfs (hn hlen) n he

theorem rulesHold (v : Json) : RulesHold v := by
  induction v using entries_induction with
  | h v ih =>
    cases v with
    | null =>
      constructor
      · rintro _ _ ⟨⟩
        rfl
      · rintro ⟨⟩
      · rintro _ _ ⟨⟩
      · exact fun _ _ hi => nomatch hi
    | str s =>
      constructor
      · rintro _ _ ⟨⟩
        rfl
      · rintro ⟨⟩
      · rintro _ _ ⟨⟩
        rfl
      · rintro ⟨⟩
    | obj fs => exact rulesHold_obj fun v hv => ih v (mem_entries_of_field? hv)
    | arr l => exact rulesHold_arr ih
    | _ =>
      constructor
      · rintro _ _ ⟨⟩
      · exact fun _ _ hc => nomatch hc
      · rintro _ _ ⟨⟩
      · exact fun _ _ hi => nomatch hi

theorem ofJson_obj_eq_ok_iff : Node.ofJson (.obj fs) = .ok n ↔ IsNode true fs n := by
  have hrules : ∀ v, field? "content" fs = some v → RulesHold v := fun v _ => rulesHold v
  refine ⟨fun he => ?_, ofJson_of_isNode hrules⟩
  rcases isNode_or_noNode fun v _ => settled v with ⟨m, hm⟩ | hno
  · have hme := ofJson_of_isNode hrules hm
    rw [he] at hme
    cases hme
    exact hm
  · exact absurd he (ofJson_of_noNode hrules hno n)

theorem ofJson_obj_ne_ok_iff : (∀ n, Node.ofJson (.obj fs) ≠ .ok n) ↔ NoNode fs := by
  refine ⟨fun hne => ?_, ofJson_of_noNode fun v _ => rulesHold v⟩
  rcases isNode_or_noNode fun v _ => settled v with ⟨n, hn⟩ | hno
  · exact absurd (ofJson_obj_eq_ok_iff.2 hn) (hne n)
  · exact hno

theorem not_isContent_of_listsNode (hv : ListsNode v) : ∀ c, ¬ IsContent false v c := by
  induction hv with
  | @node fs v hfs _ ih =>
    rintro c (_ | _ | hn | _ | _)
    cases hn with
    | bare _ hnone =>
      rw [hfs] at hnone
      cases hnone
    | mk _ hsome hc =>
      rw [hfs] at hsome
      cases hsome
      exact ih _ hc
  | @entry l v hv hlists ih =>
    rintro c (_ | _ | _ | hitems | hlist)
    · obtain ⟨i, hi⟩ := exists_of_forall₂ hitems hv
      cases hi with
      | text s => cases hlists
      | node hn => exact ih _ (.node hn)
      | list hfalse => cases hfalse
    · cases hlist
  | @list l l' hl =>
    rintro c (_ | _ | _ | hitems | hlist)
    · obtain ⟨i, hi⟩ := exists_of_forall₂ hitems hl
      cases hi with
      | list hfalse => cases hfalse
    · cases hlist
  | @noItem l v hv hno =>
    rintro c (_ | _ | _ | hitems | hlist)
    · obtain ⟨i, hi⟩ := exists_of_forall₂ hitems hv
      exact (rulesHold v).noItem hno i ((rulesHold v).isItem _ _ hi)
    · cases hlist

/-- Without lists that are nodes no more than the strict rules is needed. -/
structure StrictOrLists (v : Json) : Prop where
  isContent : ∀ c, IsContent true v c → IsContent false v c ∨ ListsNode v
  isItem : ∀ i, IsItem true v i → IsItem false v i ∨ ListsNode v ∨ ∃ l, v = .arr l

theorem isNode_false_or_listsNode (hfs : ∀ v, field? "content" fs = some v → StrictOrLists v)
    (hn : IsNode true fs n) : IsNode false fs n ∨ ListsNode (.obj fs) := by
  cases hn with
  | bare hh hc => exact .inl (.bare hh hc)
  | mk hh hc hv =>
    rcases (hfs _ hc).isContent _ hv with hv | hv
    · exact .inl (.mk hh hc hv)
    · exact .inr (.node hc hv)

theorem forall₂_isItem_or_listsNode {items : List Item} (hl : ∀ v ∈ l, StrictOrLists v)
    (h : List.Forall₂ (IsItem true) l items) :
    List.Forall₂ (IsItem false) l items ∨ ∃ v ∈ l, ListsNode v ∨ ∃ l, v = .arr l := by
  induction h with
  | nil => exact .inl .nil
  | @cons v i l items hi _ ih =>
    rcases (hl v List.mem_cons_self).isItem i hi with hi | hv
    · rcases ih fun w hw => hl w (List.mem_cons_of_mem _ hw) with hitems | ⟨w, hw, hlists⟩
      · exact .inl (.cons hi hitems)
      · exact .inr ⟨w, List.mem_cons_of_mem _ hw, hlists⟩
    · exact .inr ⟨v, List.mem_cons_self, hv⟩

theorem strictOrLists (v : Json) : StrictOrLists v := by
  induction v using entries_induction with
  | h v ih =>
    constructor
    · intro c hc
      cases hc with
      | null => exact .inl .null
      | text s => exact .inl (.text s)
      | node hn =>
        rcases isNode_false_or_listsNode (fun v hv => ih v (mem_entries_of_field? hv)) hn with
          hn | hn
        · exact .inl (.node hn)
        · exact .inr hn
      | items hitems =>
        rcases forall₂_isItem_or_listsNode ih hitems with hitems | ⟨v, hv, hlists | ⟨l, rfl⟩⟩
        · exact .inl (.items hitems)
        · exact .inr (.entry hv hlists)
        · exact .inr (.list hv)
      | list _ hv hno => exact .inr (.noItem hv hno)
    · intro i hi
      cases hi with
      | text s => exact .inl (.text s)
      | node hn =>
        rcases isNode_false_or_listsNode (fun v hv => ih v (mem_entries_of_field? hv)) hn with
          hn | hn
        · exact .inl (.node hn)
        · exact .inr (.inl hn)
      | list => exact .inr (.inr ⟨_, rfl⟩)

theorem isNode_false_iff :
    IsNode false fs n ↔ Node.ofJson (.obj fs) = .ok n ∧ ¬ ListsNode (.obj fs) := by
  constructor
  · intro hn
    exact ⟨ofJson_of_isNode (fun v _ => rulesHold v) hn,
      fun hlists => not_isContent_of_listsNode hlists _ (.node hn)⟩
  · rintro ⟨hn, hlists⟩
    rw [ofJson_obj_eq_ok_iff] at hn
    exact (isNode_false_or_listsNode (fun v _ => strictOrLists v) hn).resolve_right hlists

/-- A value is read as the one node that the rules allow and is refused where they refuse it; the
rules without lists for nodes suffice just where no list is read as a node. -/
theorem Node.ofJson_eq_ok_iff_isNode (v : Json) :
    (∀ n, Node.ofJson v = .ok n ↔ ∃ fs, v = .obj fs ∧ IsNode true fs n) ∧
      ((∃ e, Node.ofJson v = .error e) ↔ ∀ fs, v = .obj fs → NoNode fs) ∧
      ∀ fs n, v = .obj fs →
        (IsNode false fs n ↔ Node.ofJson v = .ok n ∧ ¬ ListsNode v) := by
  have herror : (∃ e, Node.ofJson v = .error e) ↔ ∀ n, Node.ofJson v ≠ .ok n := by
    cases Node.ofJson v with
    | error e => exact ⟨fun _ _ h => (nomatch h), fun _ => ⟨e, rfl⟩⟩
    | ok n => exact ⟨fun ⟨_, h⟩ => (nomatch h), fun h => absurd rfl (h n)⟩
  rw [herror]
  cases v with
  | obj fs =>
    refine ⟨fun n => ?_, ?_, ?_⟩
    · rw [ofJson_obj_eq_ok_iff]
      exact ⟨fun hn => ⟨fs, rfl, hn⟩, fun ⟨_, hfs, hn⟩ => by cases hfs; exact hn⟩
    · rw [ofJson_obj_ne_ok_iff]
      exact ⟨fun hn _ hfs => by cases hfs; exact hn, fun h => h fs rfl⟩
    · rintro _ n ⟨⟩
      exact isNode_false_iff
  | _ => exact ⟨fun n => ⟨nofun, nofun⟩, ⟨fun _ => nofun, fun _ => nofun⟩, nofun⟩

/-- A list of a text, a node that is a list, and a node around a node that is a list; and the same
with a number in the place of the last. -/
theorem Node.ofJson_eq_ok_iff_isNode_lists :
    let listed : Json := .arr [.null, .str "e"]
    let fields (v : Json) : List (String × Json) :=
      [("content", .arr [.str "t", .arr [.str "b"], .obj [("content", v)]])]
    (∃ n, IsNode true (fields listed) n ∧ ¬ IsNode false (fields listed) n) ∧
      NoNode (fields (.int 1)) := by
  intro listed fields
  have hlisted := Node.ofJson_eq_ok_iff_isNode (.obj (fields listed))
  have hint := Node.ofJson_eq_ok_iff_isNode (.obj (fields (.int 1)))
  have hlists : ListsNode (.obj (fields listed)) :=
    .node rfl (.list (List.mem_cons_of_mem _ List.mem_cons_self))
  obtain ⟨fs, hfs, hn⟩ := (hlisted.1 _).1 rfl
  cases hfs
  exact ⟨⟨_, hn, fun hstrict => ((hlisted.2.2 _ _ rfl).1 hstrict).2 hlists⟩,
    hint.2.1.1 ⟨_, rfl⟩ _ rfl⟩

/-- Null is no item, but a list of it alone is a node without a block. -/
theorem Node.ofJson_listed_null :
    ∃ fs l n, field? "content" fs = some (.arr l) ∧ .null ∈ l ∧
      Node.ofJson (.obj fs) = .ok n ∧ ∀ items, n.content ≠ .items items :=
  ⟨[("content", .arr [.null])], [.null], .mk {} (.node (.mk {} .none)), rfl, List.mem_cons_self,
    rfl, nofun⟩

end BemOutline.Bem
