import BemOutline.Proofs.Line.Written
import BemOutline.Proofs.Render.Gathering

/-! The blocks, elements and modifiers of a tree and the class names they get. Where names hold no
double dash, and none that is followed by a modifier ends in a dash, a class name tells them. -/

namespace BemOutline.Render

open Bem Line Style

/-- A block or an element of it, or one of them with a modifier. -/
structure Entity where
  block : String
  elem : Option String
  modifier : Option String
deriving DecidableEq

namespace Entity

variable {o : Options} {x y : Entity}

def className (o : Options) (x : Entity) : String :=
  match x.modifier with
  | none => o.entityClass x.block x.elem
  | some m => o.modifierClass (o.entityClass x.block x.elem) m

/-- Names that can be told apart behind the block. -/
structure Legible (x : Entity) : Prop where
  elem : ∀ e ∈ x.elem, IsPlain e
  modifier : ∀ m ∈ x.modifier, IsPlain m
  tight : x.modifier ≠ none → ∀ e ∈ x.elem, ¬ EndsInDash e

def elemPart (x : Entity) : List Char := x.elem.elim [] fun e => '_' :: '_' :: e.toList

def tail (x : Entity) : List Char :=
  x.modifier.elim x.elemPart fun m => x.elemPart ++ '-' :: '-' :: m.toList

theorem toList_className (hmod : o.modSeparator = "--") (helem : o.elemSeparator = "__")
    (x : Entity) : (x.className o).toList = x.block.toList ++ x.tail := by
  obtain ⟨b, e, m⟩ := x
  cases e <;> cases m <;>
    simp [className, tail, elemPart, Options.entityClass, Options.modifierClass, hmod, helem]

theorem elemPart_inj (h : x.elemPart = y.elemPart) : x.elem = y.elem := by
  unfold elemPart at h
  cases hx : x.elem with
  | none =>
    cases hy : y.elem with
    | none => rfl
    | some e => simp [hx, hy] at h
  | some e =>
    cases hy : y.elem with
    | none => simp [hx, hy] at h
    | some e' => simpa [hx, hy, String.toList_inj] using h

namespace Legible

theorem plain_elemPart (h : x.Legible) : ¬ ['-', '-'] <:+: x.elemPart := by
  unfold elemPart
  cases he : x.elem with
  | none => simp
  | some e =>
    have hplain := (h.elem e he).2
    simpa [List.infix_cons_iff] using hplain

theorem tight_elemPart (h : x.Legible) (hm : x.modifier ≠ none) :
    x.elemPart.getLast? ≠ some '-' := by
  unfold elemPart
  cases he : x.elem with
  | none => simp
  | some e =>
    have htight := h.tight hm e he
    have hne : e.toList ≠ [] := (h.elem e he).1.toList_ne_nil
    rwa [Option.elim_some, List.getLast?_cons_of_ne_nil (List.cons_ne_nil _ _),
      List.getLast?_cons_of_ne_nil hne]

theorem dashPieces (h : x.Legible) :
    DashPieces x.tail (x.elemPart :: (x.modifier.map String.toList).toList) := by
  unfold tail
  cases hm : x.modifier with
  | none => exact .last h.plain_elemPart
  | some m =>
    have htight : x.modifier ≠ none := by simp [hm]
    exact .cut h.plain_elemPart (h.tight_elemPart htight) (.last (h.modifier m hm).2)

/-- In the scope of one block a class name belongs to one entity only. -/
theorem className_inj (hmod : o.modSeparator = "--") (helem : o.elemSeparator = "__")
    (hx : x.Legible) (hy : y.Legible) (hblock : x.block = y.block)
    (h : x.className o = y.className o) : x = y := by
  have htail : x.tail = y.tail := by
    have hlist := congrArg String.toList h
    rw [toList_className hmod helem, toList_className hmod helem, hblock] at hlist
    exact List.append_cancel_left hlist
  have hpieces := hx.dashPieces.splitAtDashes_eq
  rw [htail, hy.dashPieces.splitAtDashes_eq] at hpieces
  obtain ⟨hpart, hmods⟩ := List.cons.inj hpieces
  have helems : y.elem = x.elem := elemPart_inj hpart
  have hmodifier : y.modifier = x.modifier := by
    cases hx : x.modifier <;> cases hy : y.modifier <;> simp_all [String.toList_inj]
  cases x
  cases y
  simp_all

end Legible

end Entity

/-- The entities that some node of a tree gives a rule: the block in its scope, its element, and the
modifiers of what it is. -/
inductive Mentions (n : Node) : Entity → Prop
  | block {p : Head × Option String} {b : String} (hp : p ∈ n.scoped none) (hb : p.2 = some b) :
    Mentions n ⟨b, none, none⟩
  | blockModifier {p : Head × Option String} {b m : String} (hp : p ∈ n.scoped none)
    (hb : p.1.block = some b) (he : p.1.elem = none) (hm : m ∈ modifierSuffixes p.1.mods) :
    Mentions n ⟨b, none, some m⟩
  | elem {p : Head × Option String} {b e : String} (hp : p ∈ n.scoped none) (hb : p.2 = some b)
    (he : p.1.elem = some e) : Mentions n ⟨b, some e, none⟩
  | elemModifier {p : Head × Option String} {b e m : String} (hp : p ∈ n.scoped none)
    (hb : p.2 = some b) (he : p.1.elem = some e) (hm : m ∈ modifierSuffixes p.1.elemMods) :
    Mentions n ⟨b, some e, some m⟩

namespace Style

variable {o : Options} {n : Node} {b : String} {x : Entity}

def elemEntities (b : String) (e : ElemRule) : List Entity :=
  ⟨b, some e.name, none⟩ :: e.mods.map fun m => ⟨b, some e.name, some m⟩

def blockEntities (r : BlockRule) : List Entity :=
  ⟨r.name, none, none⟩ :: r.mods.map (fun m => ⟨r.name, none, some m⟩) ++
    r.elems.flatMap (elemEntities r.name)

def entities (rules : List BlockRule) : List Entity := rules.flatMap blockEntities

theorem selectors_eq (o : Options) (rules : List BlockRule) :
    selectors o rules = (entities rules).map (Entity.className o) := by
  have helem : ∀ b, elemSelectors o b = fun e => (elemEntities b e).map (Entity.className o) := by
    intro b
    funext e
    simp [elemSelectors, elemEntities, Entity.className]
  have hmods : ∀ b, Entity.className o ∘ (fun m => ⟨b, none, some m⟩) = o.modifierClass b := by
    intro b
    rfl
  unfold selectors entities
  rw [List.map_flatMap]
  apply List.flatMap_congr
  intro r _
  unfold blockSelectors blockEntities
  rw [List.map_append, List.map_cons, List.map_map, List.map_flatMap, hmods, helem]
  rfl

theorem mem_elemEntities {e : ElemRule} :
    x ∈ elemEntities b e ↔ x.block = b ∧ x.elem = some e.name ∧ ∀ m ∈ x.modifier, m ∈ e.mods := by
  unfold elemEntities
  obtain ⟨b', e', m⟩ := x
  cases m with
  | none => simp
  | some m => simp [eq_comm, and_comm, and_left_comm]

theorem mem_blockEntities {r : BlockRule} :
    x ∈ blockEntities r ↔ x.block = r.name ∧
      ((x.elem = none ∧ ∀ m ∈ x.modifier, m ∈ r.mods) ∨
        ∃ e ∈ r.elems, x.elem = some e.name ∧ ∀ m ∈ x.modifier, m ∈ e.mods) := by
  unfold blockEntities
  rw [List.mem_append, List.mem_flatMap]
  simp only [mem_elemEntities]
  have hown : x ∈ (⟨r.name, none, none⟩ : Entity) :: r.mods.map (fun m => ⟨r.name, none, some m⟩) ↔
      x.block = r.name ∧ x.elem = none ∧ ∀ m ∈ x.modifier, m ∈ r.mods := by
    obtain ⟨b', e', m⟩ := x
    cases m with
    | none => simp
    | some m => simp [eq_comm, and_comm, and_left_comm]
  rw [hown]
  constructor
  · rintro (⟨hb, hx⟩ | ⟨e, he, hb, hx⟩)
    · exact ⟨hb, .inl hx⟩
    · exact ⟨hb, .inr ⟨e, he, hx⟩⟩
  · rintro ⟨hb, hx | ⟨e, he, hx⟩⟩
    · exact .inl ⟨hb, hx⟩
    · exact .inr ⟨e, he, hb, hx⟩

theorem mem_entities_rulesOf : x ∈ entities (rulesOf n) ↔ Mentions n x := by
  rw [entities, List.mem_flatMap, rulesOf_eq]
  simp only [mem_blockEntities, rulesInOrder, List.mem_map, exists_exists_and_eq_and]
  constructor
  · obtain ⟨b, e, m⟩ := x
    rintro ⟨_, hb, rfl, ⟨rfl, hm⟩ | ⟨e, he, rfl, hm⟩⟩
    · cases m with
      | none =>
        obtain ⟨p, hp, hb⟩ := mem_blockNames.1 hb
        exact .block hp hb
      | some m =>
        obtain ⟨p, hp, hb, he, hm⟩ := mem_blockModifiers.1 (hm m rfl)
        exact .blockModifier hp hb he hm
    · cases m with
      | none =>
        obtain ⟨p, hp, hb, he⟩ := mem_elemNames.1 he
        exact .elem hp hb he
      | some m =>
        obtain ⟨p, hp, hb, he, hm⟩ := mem_elemModifiers.1 (hm m rfl)
        exact .elemModifier hp hb he hm
  · rintro (⟨hp, hb⟩ | ⟨hp, hb, he, hm⟩ | ⟨hp, hb, he⟩ | ⟨hp, hb, he, hm⟩)
    · exact ⟨_, mem_blockNames.2 ⟨_, hp, hb⟩, rfl, .inl ⟨rfl, by simp⟩⟩
    · have hmem := mem_blockModifiers.2 ⟨_, hp, hb, he, hm⟩
      exact ⟨_, mem_blockNames.2 ⟨_, hp, snd_of_mem_scoped hp hb⟩, rfl, .inl ⟨rfl, by simpa⟩⟩
    · have hmem := mem_elemNames.2 ⟨_, hp, hb, he⟩
      exact ⟨_, mem_blockNames.2 ⟨_, hp, hb⟩, rfl, .inr ⟨_, hmem, rfl, by simp⟩⟩
    · have hmem := mem_elemModifiers.2 ⟨_, hp, hb, he, hm⟩
      exact ⟨_, mem_blockNames.2 ⟨_, hp, hb⟩, rfl,
        .inr ⟨_, mem_elemNames.2 ⟨_, hp, hb, he⟩, rfl, by simpa⟩⟩

theorem nodup_elemEntities {e : ElemRule} (h : e.mods.Nodup) : (elemEntities b e).Nodup := by
  refine List.nodup_cons.2 ⟨by simp, h.map fun m m' hm => ?_⟩
  simpa using hm

theorem nodup_blockEntities {r : BlockRule} (hmods : r.mods.Nodup)
    (helems : (r.elems.map (·.name)).Nodup) (helemMods : ∀ e ∈ r.elems, e.mods.Nodup) :
    (blockEntities r).Nodup := by
  unfold blockEntities
  rw [List.nodup_append, List.nodup_flatMap]
  refine ⟨?_, ⟨fun e he => nodup_elemEntities (helemMods e he), ?_⟩, ?_⟩
  · refine List.nodup_cons.2 ⟨by simp, hmods.map fun m m' hm => ?_⟩
    simpa using hm
  · refine (List.pairwise_map.1 helems).imp fun {e e'} hne x hx hx' => hne ?_
    rw [mem_elemEntities] at hx hx'
    exact Option.some.inj (hx.2.1.symm.trans hx'.2.1)
  · rintro x hx y hy rfl
    obtain ⟨e, -, hy⟩ := List.mem_flatMap.1 hy
    have helem := (mem_elemEntities.1 hy).2.1
    rcases List.mem_cons.1 hx with rfl | hx
    · cases helem
    · obtain ⟨m, -, rfl⟩ := List.mem_map.1 hx
      cases helem

theorem nodup_entities {rules : List BlockRule} (h : Distinct rules) : (entities rules).Nodup := by
  unfold entities
  rw [List.nodup_flatMap]
  constructor
  · intro r hr
    exact nodup_blockEntities (h.mods r hr) (h.elems r hr) (h.elemMods r hr)
  · refine (List.pairwise_map.1 h.blocks).imp fun {r r'} hne x hx hx' => hne ?_
    exact (mem_blockEntities.1 hx).1.symm.trans (mem_blockEntities.1 hx').1

end Style

end BemOutline.Render
