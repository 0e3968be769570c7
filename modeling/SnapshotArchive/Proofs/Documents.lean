import SnapshotArchive.Store.Document
import SnapshotArchive.Proofs.Documents.Values
import SnapshotArchive.Proofs.Listings

/-!
# Archives are read back

What is looked up in a record does not depend on the order in which its fields were written: sorting
keeps the order of fields with one name. So the records of an archive are read back from its
document, and the archive from the text.

* `Value.field?_asWritten` : what is found in a value as it is written.
* `Node.ofDocument?_asWritten` and the like : a record is read back from its document.
* `Archive.ofText?_toText` : an archive is read back from its text.
-/

namespace SnapshotArchive

open Store

/-! ### Fields in order -/

namespace Value

variable {α : Type}

/-- Fields with one name stay in their order. -/
theorem filter_name_mergeSort (name : String) (fs : List (String × α)) :
    (fs.mergeSort fun a b => a.1 ≤ b.1).filter (·.1 = name) = fs.filter (·.1 = name) := by
  rw [filter_mergeSort field_le_trans field_le_total]
  refine List.mergeSort_of_pairwise (List.pairwise_of_forall_mem_list fun f hf g hg => ?_)
  have hname : f.1 = g.1 := by
    rw [of_decide_eq_true (List.mem_filter.1 hf).2, of_decide_eq_true (List.mem_filter.1 hg).2]
  exact decide_eq_true (hname ▸ String.le_refl f.1)

/-- Of the fields with one name the first is found. -/
theorem lookup_eq_head? (name : String) (fs : List (String × α)) :
    fs.lookup name = ((fs.filter (·.1 = name)).map (·.2)).head? := by
  induction fs with
  | nil => rfl
  | cons f fs ih =>
    rw [Properties.lookup_entry, ih, List.filter_cons]
    by_cases h : name = f.1
    · simp [h]
    · simp [h, Ne.symm h]

/-- A field of a value as it is written is one of the value. -/
theorem field?_asWritten (v : Value) (name : String) :
    v.asWritten.field? name = (v.field? name).map asWritten := by
  cases v with
  | record fs =>
    rw [asWritten, field?, field?, lookup_eq_head?, filter_name_mergeSort, lookup_eq_head?,
      fieldsAsWritten_eq_map, List.filter_map, List.map_map, ← List.head?_map, List.map_map]
    rfl
  | _ => rfl

/-- A value as it is written is the same text, if it is one. -/
@[simp] theorem text?_asWritten (v : Value) : v.asWritten.text? = v.text? := by
  cases v <;> rfl

/-- It is the same whole number, if it is one. -/
@[simp] theorem whole?_asWritten (v : Value) : v.asWritten.whole? = v.whole? := by
  cases v <;> rfl

/-- It is the same truth value, if it is one. -/
@[simp] theorem truth?_asWritten (v : Value) : v.asWritten.truth? = v.truth? := by
  cases v <;> rfl

/-- It is the list of the elements as they are written, if it is one. -/
@[simp] theorem list?_asWritten (v : Value) :
    v.asWritten.list? = v.list?.map fun vs => vs.map asWritten := by
  cases v with
  | list vs => simp [asWritten, list?, allAsWritten_eq_map]
  | _ => rfl

/-- The text in a field is that of the value as it is written. -/
theorem textIn?_asWritten (v : Value) (name : String) :
    v.asWritten.textIn? name = v.textIn? name := by
  simp [textIn?, field?_asWritten, Option.bind_map]

/-- So is the whole number in a field. -/
theorem wholeIn?_asWritten (v : Value) (name : String) :
    v.asWritten.wholeIn? name = v.wholeIn? name := by
  simp [wholeIn?, field?_asWritten, Option.bind_map]

/-- So is the truth value in a field. -/
theorem truthIn?_asWritten (v : Value) (name : String) :
    v.asWritten.truthIn? name = v.truthIn? name := by
  simp [truthIn?, field?_asWritten, Option.bind_map]

/-- A text that may be missing is read back. -/
@[simp] theorem text?_ofOption (o : Option String) : (ofOption o).text? = o := by
  cases o <;> rfl

/-- If every element is read back, so is the list. -/
theorem mapM_map_eq_some {β : Type} {f : β → α} {take? : α → Option β} (g : β → β) {bs : List β}
    (h : ∀ b ∈ bs, take? (f b) = some (g b)) : (bs.map f).mapM take? = some (bs.map g) := by
  induction bs with
  | nil => rfl
  | cons b bs ih =>
    obtain ⟨hb, hbs⟩ := List.forall_mem_cons.1 h
    simp [hb, ih hbs]

/-- A list of documents is read back if each of them is. -/
theorem listIn?_asWritten {β : Type} {v : Value} {name : String} {bs : List β} {write : β → Value}
    {take? : Value → Option β} {g : β → β}
    (hv : v.field? name = some (.list (bs.map write)))
    (h : ∀ b ∈ bs, take? (write b).asWritten = some (g b)) :
    v.asWritten.listIn? name take? = some (bs.map g) := by
  rw [listIn?, field?_asWritten, hv]
  rw [Option.map_some, Option.bind_some, list?_asWritten, list?, Option.map_some, List.map_map]
  exact mapM_map_eq_some g h

end Value

/-! ### Records -/

section

open Value

/-- A tag is read back from its document. -/
theorem Tag.ofDocument?_asWritten (t : Tag) : Tag.ofDocument? t.record.asWritten = some t := by
  simp only [ofDocument?, textIn?_asWritten, wholeIn?_asWritten]
  rfl

/-- A variable is read back from its document. -/
theorem Pv.ofDocument?_asWritten (pv : Pv) : Pv.ofDocument? pv.toDocument.asWritten = some pv := by
  have hreadback : pv.toDocument.textIn? "readback_pv_name" = pv.readback :=
    text?_ofOption pv.readback
  simp only [ofDocument?, textIn?_asWritten, wholeIn?_asWritten, truthIn?_asWritten, hreadback]
  rfl

/-- An item with its values as they are written. -/
def Item.asWritten (i : Item) : Item :=
  { i with value := i.value.asWritten, readback := i.readback.asWritten }

/-- An item is read back from its document, with its values as they are written. -/
theorem Item.ofDocument?_asWritten (i : Item) :
    Item.ofDocument? i.toDocument.asWritten = some i.asWritten := by
  simp only [ofDocument?, textIn?_asWritten, wholeIn?_asWritten, field?_asWritten]
  rfl

/-- The record of properties is in order already. -/
theorem Properties.record_asWritten (p : Properties) : p.record.asWritten = p.record := by
  have hfields : fieldsAsWritten (p.entries.map fun e => (e.1, .text e.2)) =
      p.entries.map fun e => (e.1, .text e.2) := by
    rw [fieldsAsWritten_eq_map, List.map_map]
    rfl
  rw [Properties.record, asWritten, hfields, List.mergeSort_of_pairwise]
  refine List.pairwise_map.2 (p.sorted.imp fun {e d} h => ?_)
  exact decide_eq_true (String.not_lt.1 (String.lt_asymm h))

/-- Properties are read back from their record. -/
theorem Properties.ofList_texts (p : Properties) : ofList p.record.texts = p := by
  have htexts : p.record.texts = p.entries := by
    simp [Properties.record, texts, text?]
  rw [htexts, ofList_entries]

/-- What a node holds is read back from its record. -/
theorem Content.ofPayload_ofRecord (c : Content) : ∃ payload,
    Payload.ofRecord c.kind c.record.asWritten.texts = .ok payload ∧
      Content.ofPayload c.kind payload = .ok c := by
  cases c with
  | folder => exact ⟨none, rfl, rfl⟩
  | configuration description =>
    refine ⟨some (.configuration description), ?_, rfl⟩
    simp [Content.record, asWritten, fieldsAsWritten, texts, text?, Payload.ofRecord, Content.kind]
  | snapshot status comment =>
    have hfields : (Content.snapshot status comment).record.asWritten =
        .record [("comment", .text comment), ("status", .text status.label)] := by
      simp [Content.record, asWritten, fieldsAsWritten, List.mergeSort]
    refine ⟨some (.snapshot status comment), ?_, rfl⟩
    rw [hfields]
    cases status <;> rfl

/-- A node is read back from its document. -/
theorem Node.ofDocument?_asWritten (n : Node) :
    Node.ofDocument? n.toDocument.asWritten = some n := by
  have hkind : n.toDocument.textIn? "node_type" = some n.kind.label := rfl
  have hpayload : n.toDocument.field? "payload" = some n.content.record := rfl
  have hproperties : n.toDocument.field? "properties" = some n.properties.record := rfl
  have hparent : n.toDocument.textIn? "parent_id" = n.parent := text?_ofOption n.parent
  obtain ⟨payload, hrecord, hcontent⟩ := n.content.ofPayload_ofRecord
  simp only [ofDocument?, textIn?_asWritten, wholeIn?_asWritten, truthIn?_asWritten,
    field?_asWritten, hkind, hpayload, hproperties, hparent, Option.map_some, Option.bind_eq_bind,
    Option.bind_some, Kind.ofLabel?_label, Node.kind, hrecord, hcontent, Except.toOption,
    Properties.record_asWritten, Properties.ofList_texts]
  rfl

/-! ### No numbers but in items -/

/-- A text that may be missing is no number. -/
theorem Value.hasRealTexts_ofOption (o : Option String) : (ofOption o).hasRealTexts := by
  cases o <;> rfl

/-- A record keeps to texts of numbers if the fields that it gets do. -/
theorem Value.hasRealTexts_withFields {v : Value} {more : List (String × Value)}
    (h : v.hasRealTexts) (hmore : fieldsHaveRealTexts more) : (v.withFields more).hasRealTexts := by
  cases v with
  | record fs =>
    rw [withFields, hasRealTexts, fieldsHaveRealTexts_iff, List.forall_mem_append]
    exact ⟨fieldsHaveRealTexts_iff.1 h, fieldsHaveRealTexts_iff.1 hmore⟩
  | _ => exact h

/-- The record of a node has no floating-point number. -/
theorem Node.hasRealTexts_record (n : Node) : n.record.hasRealTexts := by
  have hproperties : n.properties.record.hasRealTexts := by
    rw [Properties.record, hasRealTexts, fieldsHaveRealTexts_iff, List.forall_mem_map]
    exact fun _ _ => rfl
  have hcontent : n.content.record.hasRealTexts := by
    cases n.content <;> rfl
  simp [Node.record, Node.form, NodeForm.record, hasRealTexts, fieldsHaveRealTexts,
    hasRealTexts_ofOption, hproperties, hcontent]

/-- The document of a node has none. -/
theorem Node.hasRealTexts_toDocument (n : Node) : n.toDocument.hasRealTexts :=
  hasRealTexts_withFields n.hasRealTexts_record rfl

/-- The document of a variable has none. -/
theorem Pv.hasRealTexts_toDocument (pv : Pv) : pv.toDocument.hasRealTexts := by
  refine hasRealTexts_withFields ?_ rfl
  simp [Pv.record, Pv.describe, PvForm.record, hasRealTexts, fieldsHaveRealTexts,
    hasRealTexts_ofOption]

/-- The record of a tag has none. -/
theorem Tag.hasRealTexts_record (t : Tag) : t.record.hasRealTexts := rfl

end

/-! ### Archives -/

/-- An archive with the values of its items as they are written. -/
def Archive.asWritten (a : Archive) : Archive :=
  { a with store := a.store.map fun s => { s with items := s.items.map Item.asWritten } }

/-- Whether the floating-point numbers in the items of an archive are given by texts of such
numbers. -/
def Archive.HasRealTexts (a : Archive) : Prop :=
  ∀ s ∈ a.store, ∀ i ∈ s.items, i.value.hasRealTexts ∧ i.readback.hasRealTexts

namespace Archive

open Value

variable {a : Archive}

/-- An archive is read back from its document. -/
theorem ofDocument?_asWritten (a : Archive) :
    ofDocument? a.toDocument.asWritten = some a.asWritten := by
  obtain ⟨writeAhead, store⟩ := a
  cases store with
  | none =>
    simp only [ofDocument?, truthIn?_asWritten, field?_asWritten]
    rfl
  | some s =>
    -- The document holds the four tables, and its text a record too.
    obtain ⟨tables, htables, ⟨fields, hfields⟩, hnodes, hpvs, hitems, htags⟩ : ∃ tables,
        (toDocument ⟨writeAhead, some s⟩).field? "tables" = some tables ∧
        (∃ fields, tables.asWritten = .record fields) ∧
        tables.field? "nodes" = some (.list (s.nodes.map Node.toDocument)) ∧
        tables.field? "config_pvs" = some (.list (s.pvs.map Pv.toDocument)) ∧
        tables.field? "snapshot_items" = some (.list (s.items.map Item.toDocument)) ∧
        tables.field? "tags" = some (.list (s.tags.map Tag.record)) :=
      ⟨_, rfl, ⟨_, rfl⟩, rfl, rfl, rfl, rfl⟩
    have hnodes := listIn?_asWritten (g := id) hnodes fun n _ => n.ofDocument?_asWritten
    have hpvs := listIn?_asWritten (g := id) hpvs fun pv _ => pv.ofDocument?_asWritten
    have hitems := listIn?_asWritten hitems fun i _ => i.ofDocument?_asWritten
    have htags := listIn?_asWritten (g := id) htags fun t _ => t.ofDocument?_asWritten
    rw [hfields] at hnodes hpvs hitems htags
    have hwrite : (toDocument ⟨writeAhead, some s⟩).truthIn? "write_ahead" = some writeAhead := rfl
    simp only [ofDocument?, truthIn?_asWritten, hwrite, field?_asWritten, htables, Option.map_some,
      hfields, Option.bind_eq_bind, Option.bind_some, hnodes, hpvs, hitems, htags, List.map_id]
    rfl

/-- The document of an archive has the floating-point numbers of its items only. -/
theorem hasRealTexts_toDocument (h : a.HasRealTexts) : a.toDocument.hasRealTexts := by
  obtain ⟨writeAhead, store⟩ := a
  cases store with
  | none => rfl
  | some s =>
    have hitem : ∀ i ∈ s.items, i.toDocument.hasRealTexts := by
      intro i hi
      obtain ⟨hvalue, hreadback⟩ := h s rfl i hi
      simp [Item.toDocument, hasRealTexts, fieldsHaveRealTexts, hvalue, hreadback]
    simp only [toDocument, Option.map_some, Option.getD_some, hasRealTexts, fieldsHaveRealTexts,
      Bool.and_eq_true, allHaveRealTexts_iff, List.forall_mem_map]
    exact ⟨trivial, ⟨fun n _ => n.hasRealTexts_toDocument, fun pv _ => pv.hasRealTexts_toDocument,
      hitem, fun t _ => t.hasRealTexts_record, trivial⟩, trivial⟩

/-- An archive is read back from its text. -/
theorem ofText?_toText (h : a.HasRealTexts) : ofText? a.toText = some a.asWritten := by
  have htext : a.toText.toList = (a.toDocument.prettyAt 0).toList ++ ['\n'] := String.toList_append
  have hdenotes := denotes_prettyAt a.toDocument 0 (hasRealTexts_toDocument h)
  rw [ofText?, hdenotes.ofText? htext (List.forall_mem_singleton.2 rfl), Option.bind_some,
    ofDocument?_asWritten]

/-- An archive that was read back is written as the same text. -/
theorem toText_asWritten (a : Archive) : a.asWritten.toText = a.toText := by
  have hitem (i : Item) : i.asWritten.toDocument.asWritten = i.toDocument.asWritten := by
    simp [Item.asWritten, Item.toDocument, Value.asWritten, fieldsAsWritten, asWritten_asWritten]
  have hdocument : a.asWritten.toDocument.asWritten = a.toDocument.asWritten := by
    obtain ⟨writeAhead, store⟩ := a
    cases store with
    | none => rfl
    | some s =>
      have hitems : Value.asWritten ∘ Item.toDocument ∘ Item.asWritten =
          Value.asWritten ∘ Item.toDocument := funext hitem
      simp [asWritten, toDocument, Value.asWritten, fieldsAsWritten, allAsWritten_eq_map, hitems]
  rw [toText, toText, pretty, pretty, ← prettyAt_asWritten, hdocument, prettyAt_asWritten]

end Archive

end SnapshotArchive
