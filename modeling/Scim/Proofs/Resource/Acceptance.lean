import Scim.Proofs.Attribute.Acceptance
import Scim.Proofs.Resource.Document

/-!
# Acceptance of documents that are shown

A valid resource that was filled from documents shows one that fills a new resource so that it is valid
too (`isValid_assignJson_toJson`). A resource is valid exactly if it has an identifier and each attribute
is valid (`isValid_iff`); the identifier is among what is shown, and the attributes of the new resource
are those of the old, each assigned what it showed (`exists_filled`, `Content.Shaped.regained`).
-/

set_option autoImplicit false

namespace Scim.Resource

variable {schemas : List Schema} {location : String} {r₀ r : Resource}

theorem isValid_iff :
    r.isValid = true ↔ r.id.all Text.isBlank = false ∧ ∀ a ∈ r.attributes, a.isValid = true := by
  have merged (attributes : List Attribute) (report : Report) :
      (attributes.foldl (fun report a => report.merge a.check) report).isEmpty = true ↔
        report.isEmpty = true ∧ ∀ a ∈ attributes, a.isValid = true := by
    induction attributes generalizing report with
    | nil => simp
    | cons a attributes ih => simp [ih, Attribute.isValid, and_assoc]
  rw [isValid, check, merged]
  cases r.id.all Text.isBlank <;> simp

/-! ## Main result -/

/-- **What a resource shows is accepted.** A resource that was filled from any documents and is valid
shows one that fills a new resource so that it is valid. -/
theorem isValid_assignJson_toJson (hne : schemas ≠ [])
    (hdistinct : ∀ d ∈ Descriptor.bound schemas, d.Distinct)
    (hdisclosed : ∀ d ∈ Descriptor.bound schemas, d.Disclosed)
    (hfree : ∀ d ∈ Descriptor.bound schemas, d.name ∉ reserved)
    (hown : ∀ r₀, bind schemas location = .ok r₀ → ∀ a ∈ r₀.attributes, r₀.attribute? a.name = some a)
    (documents : List Json) (hdocuments : ∀ j ∈ documents, (∃ members, j = .object members) ∧ j.Words) :
    ∃ r₀, bind schemas location = .ok r₀ ∧ ∃ r, documents.foldlM assignJson r₀ = .ok r ∧
      ∃ r₂, r₀.assignJson r.toJson = .ok r₂ ∧ (r.isValid = true → r₂.isValid = true) := by
  obtain ⟨r₀, h⟩ := exists_bind hne location
  obtain ⟨r, hr, hkept, -, -, hserver, hfilled⟩ :=
    exists_filled .documents h hfree (hown r₀ h) hdocuments
  obtain ⟨hattributes, hid, -, hmode⟩ := fresh_of_bind h
  have hnamed := hkept.named hfree
  have hagain : (r₀.filled r.shown).attributes = r.attributes.map Attribute.again := by
    show r₀.attributes.map (take r.shown) = _
    rw [hattributes, attributes_filled hkept hnamed (hserver.trans hmode)]
  refine ⟨r₀, h, r, hr, r₀.filled r.shown, hfilled, fun hvalid => ?_⟩
  rw [isValid_iff] at hvalid ⊢
  rw [hnamed.id_filled hid, hagain, List.forall_mem_map]
  refine ⟨hvalid.1, fun a ha => ?_⟩
  have hd : a.descriptor ∈ Descriptor.bound schemas := hkept.descriptors ▸ List.mem_map_of_mem ha
  have hregained : a.Regained :=
    Attribute.regained_of_content (hdisclosed _ hd).isHidden
      ((hkept.shaped a ha).regained (hdistinct _ hd) (hdisclosed _ hd))
  exact (hregained (hvalid.2 a ha)).1

/-- A schema of subscribers, each of which is active or not and has addresses. -/
def subscriber : Schema :=
  { Schema.new "urn:subscriber" "Subscriber" "/Schemas/Subscriber" with
    attributes := [{ Descriptor.new "active" .boolean with required := true },
      { (Descriptor.new "emails" .complex).addSub
          { Descriptor.new "value" .string with required := true } with multiValued := true }] }

theorem bound_subscriber : Descriptor.bound [subscriber] = subscriber.attributes := by
  decide +kernel

/-- A document with a truth value in text, and with nothing in the place of an address. -/
def subscription : Json :=
  .object [("active", .string "TRUE"),
    ("emails", .array [.null, .object [("value", .string "ann@example.com")]]), ("id", .string "1")]

theorem words_subscription : subscription.Words := by
  refine .object ?_
  simp only [List.mem_cons, List.not_mem_nil, or_false]
  rintro m (rfl | rfl | rfl)
  · exact .string _
  · refine .array ?_
    simp only [List.mem_cons, List.not_mem_nil, or_false]
    rintro j (rfl | rfl)
    · exact .null
    · exact .object fun m hm => List.mem_singleton.1 hm ▸ .string _
  · exact .string _

/-- The truth value is shown as one, the list with null in it, and both are accepted again. -/
theorem isValid_assignJson_subscriber :
    ∃ r₀, bind [subscriber] "/Subscribers/1" = .ok r₀ ∧ ∃ r,
      [subscription].foldlM assignJson r₀ = .ok r ∧ ∃ r₂, r₀.assignJson r.toJson = .ok r₂ ∧
        r.isValid = true ∧ r₂.isValid = true := by
  have hdistinct : ∀ d ∈ Descriptor.bound [subscriber], d.Distinct := by
    rw [bound_subscriber]
    simp only [subscriber, List.mem_cons, List.not_mem_nil, or_false]
    rintro d (rfl | rfl)
    · exact .intro List.nodup_nil nofun
    · exact .intro (by decide) fun sub hsub => List.mem_singleton.1 hsub ▸ .intro List.nodup_nil nofun
  have hdisclosed : ∀ d ∈ Descriptor.bound [subscriber], d.Disclosed := by
    rw [bound_subscriber]
    simp only [subscriber, List.mem_cons, List.not_mem_nil, or_false]
    rintro d (rfl | rfl)
    · exact .intro nofun nofun nofun
    · exact .intro nofun nofun fun sub hsub =>
        List.mem_singleton.1 hsub ▸ .intro nofun nofun nofun
  have hfree : ∀ d ∈ Descriptor.bound [subscriber], d.name ∉ reserved := by
    rw [bound_subscriber]
    decide
  have hown (r₀ : Resource) (h : bind [subscriber] "/Subscribers/1" = .ok r₀) :
      ∀ a ∈ r₀.attributes, r₀.attribute? a.name = some a := by
    refine attribute?_own h ?_
    rw [bound_subscriber]
    decide +kernel
  obtain ⟨r₀, h, r, hr, r₂, hr₂, hvalid⟩ := isValid_assignJson_toJson (by simp) hdistinct hdisclosed
    hfree hown [subscription] fun j hj => List.mem_singleton.1 hj ▸ ⟨⟨_, rfl⟩, words_subscription⟩
  have hr' : r.isValid = true := by
    cases h
    cases hr
    rfl
  exact ⟨r₀, h, r, hr, r₂, hr₂, hr', hvalid hr'⟩

end Scim.Resource
