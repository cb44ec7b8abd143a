import Mathlib.Data.List.Forall2
import RecipeClient.Proofs.Json.UnknownMembers

/-!
# Records taken from objects

A record that is taken from an object holds, for each member that it knows, the value under the
member's name, or what stands for a missing one. Where a codec changes no value, the record is
therefore sent with what the object has under each name.

- `Codec.Exact`: what is taken from a value is sent as that value
- `Record.taken_of_ofEntries?`: where the values of a record come from
- `Record.get?_sent_of_taken`, `Record.get?_sent_of_untaken`: what is sent under a key of the object
-/

namespace RecipeClient.Json

/-! ## Codecs that change no value -/

/-- What is taken from a value is sent as that value. -/
def Codec.Exact {α : Type} (codec : Codec α) : Prop :=
  ∀ ⦃v a⦄, codec.ofValue? v = some a → codec.toValue a = v.canonical

/-- What is taken from the elements of a list stands at their places. -/
theorem forall₂_of_mapM {α β : Type} {f : α → Option β} {as : List α} {bs : List β}
    (h : as.mapM f = some bs) : List.Forall₂ (fun a b => f a = some b) as bs := by
  induction as generalizing bs with
  | nil =>
    obtain rfl := Option.some.inj h
    exact .nil
  | cons a as ih =>
    rw [List.mapM_cons] at h
    obtain ⟨b, hb, h⟩ := Option.bind_eq_some_iff.mp h
    obtain ⟨others, hothers, h⟩ := Option.bind_eq_some_iff.mp h
    obtain rfl := Option.some.inj h
    exact .cons hb (ih hothers)

namespace Codec

variable {α : Type} {codec : Codec α}

theorem toValue_list (as : List α) : codec.list.toValue as = .array (as.map codec.toValue) := by
  show Value.array (Value.canonicalItems (as.map codec.write)) = _
  rw [Value.canonicalItems_eq_map, List.map_map]
  rfl

@[simp]
theorem exact_string : Codec.string.Exact := by
  intro v s h
  cases v with
  | string t =>
    obtain rfl := Option.some.inj h
    rfl
  | _ => exact absurd h nofun

@[simp]
theorem exact_any : Codec.any.Exact := by
  intro v w h
  obtain rfl := Option.some.inj h
  exact v.canonical_canonical

theorem Exact.optional (h : codec.Exact) : codec.optional.Exact := by
  intro v o hv
  cases v with
  | null =>
    obtain rfl := Option.some.inj hv
    rfl
  | boolean _ | number _ | string _ | array _ | object _ =>
    obtain ⟨a, ha, rfl⟩ := Option.map_eq_some_iff.mp hv
    exact h ha

theorem Exact.list (h : codec.Exact) : codec.list.Exact := by
  intro v as hv
  cases v with
  | array items =>
    have hitems := forall₂_of_mapM hv
    rw [toValue_list, Value.canonical, Value.canonicalItems_eq_map]
    congr 1
    clear hv
    induction hitems with
    | nil => rfl
    | cons hhead _ ih => rw [List.map_cons, List.map_cons, h hhead, ih]
  | _ => cases hv

end Codec

namespace Member

variable {ρ β : Type} {name : String} {codec : Codec β}

/-- The member's values are sent as they were taken. -/
def Exact (m : Member ρ) : Prop := m.codec.Exact

@[simp]
theorem exact_required {get : ρ → β} {set : ρ → β → ρ} (h : codec.Exact) :
    (required name codec get set).Exact := h

@[simp]
theorem exact_withDefault {value : β} {get : ρ → β} {set : ρ → β → ρ} (h : codec.Exact) :
    (withDefault name codec value get set).Exact := h

@[simp]
theorem exact_optional {get : ρ → Option β} {set : ρ → Option β → ρ} (h : codec.Exact) :
    (optional name codec get set).Exact := h.optional

@[simp]
theorem exact_listOmitted {get : ρ → List β} {set : ρ → List β → ρ} (h : codec.Exact) :
    (listOmitted name codec get set).Exact := h.list

/-- Where a value of the member comes from: it was taken from the entry with the member's name, or
it stands for a missing one. -/
def Taken (entries : Entries) (m : Member ρ) (b : m.β) : Prop :=
  match entries.get? m.name with
  | some v => m.codec.ofValue? v = some b
  | none => m.absence.inObject? = some b

theorem Taken.of_some {entries : Entries} {m : Member ρ} {b : m.β} (h : m.Taken entries b)
    {v : Value} (hv : entries.get? m.name = some v) : m.codec.ofValue? v = some b := by
  unfold Taken at h
  rw [hv] at h
  exact h

end Member

/-! ## Records -/

namespace Record

open Member (Values collect fill All)

variable {ρ : Type} {r : Record ρ} {entries : Entries} {a : ρ}

theorem all_taken_of_takeMembers {ms : List (Member ρ)} {b : ρ}
    (h : takeMembers entries ms a = some b) :
    ∃ bs : Values ms, b = fill ms bs a ∧ All (Member.Taken entries) ms bs := by
  induction ms generalizing a with
  | nil => exact ⟨(), (Option.some.inj h).symm, trivial⟩
  | cons m ms ih =>
    rw [takeMembers] at h
    have htaken : ∃ value, m.Taken entries value ∧
        takeMembers entries ms (m.set a value) = some b := by
      unfold Member.Taken
      cases hfound : entries.get? m.name with
      | none =>
        rw [hfound] at h
        obtain ⟨update, hupdate, h⟩ := Option.bind_eq_some_iff.mp h
        obtain ⟨value, hvalue, rfl⟩ := Option.map_eq_some_iff.mp hupdate
        exact ⟨value, hvalue, h⟩
      | some v =>
        rw [hfound] at h
        obtain ⟨update, hupdate, h⟩ := Option.bind_eq_some_iff.mp h
        obtain ⟨value, hvalue, rfl⟩ := Option.map_eq_some_iff.mp hupdate
        exact ⟨value, hvalue, h⟩
    obtain ⟨value, hvalue, h⟩ := htaken
    obtain ⟨bs, rfl, hbs⟩ := ih h
    exact ⟨(value, bs), rfl, hvalue, hbs⟩

/-- A record is made of the values that were taken from the object, and of the entries that it does
not know. -/
theorem make_of_ofEntries? (h : r.ofEntries? entries = some a) :
    ∃ bs : Values r.members, All (Member.Taken entries) r.members bs ∧
      a = r.make bs (Entries.sorted
        (Value.canonicalMembers (entries.filter fun entry => !r.knows entry.1))) := by
  obtain ⟨b, hb, h⟩ := Option.bind_eq_some_iff.mp h
  obtain ⟨bs, rfl, hbs⟩ := all_taken_of_takeMembers hb
  refine ⟨bs, hbs, ?_⟩
  unfold make
  cases hplace : r.remainder with
  | none =>
    rw [hplace] at h
    exact (Option.some.inj h).symm
  | some place =>
    rw [hplace] at h
    exact (Option.some.inj h).symm

section Lawful

variable {height : Nat} (hr : r.Lawful height) (h : r.ofEntries? entries = some a)
include hr h

/-- The values of a record are the ones that were taken from the object. -/
theorem taken_of_ofEntries? : ∀ m ∈ r.members, m.Taken entries (m.get a) := by
  obtain ⟨bs, hbs, rfl⟩ := make_of_ofEntries? h
  apply Member.all_collect
  rw [hr.collect_make]
  exact hbs

theorem unknown_of_ofEntries? : ∀ entry ∈ r.rest a, r.knows entry.1 = false := by
  obtain ⟨bs, -, rfl⟩ := make_of_ofEntries? h
  cases hkeeps : r.remainder.isSome with
  | false =>
    rw [rest_eq_nil (by simpa using hkeeps)]
    exact fun entry hentry => absurd hentry List.not_mem_nil
  | true =>
    rw [hr.rest_make hkeeps]
    intro entry hentry
    obtain ⟨raw, hraw, rfl⟩ := Value.exists_of_mem_canonical hentry
    simpa using (List.mem_filter.mp hraw).2

/-- A member that the object has is sent with the value that it has there, unless it is omitted. -/
theorem get?_sent_of_taken {m : Member ρ} (hm : m ∈ r.members) (hexact : m.Exact) {v : Value}
    (hv : entries.get? m.name = some v) :
    m.codec.toValue (m.get a) = v.canonical ∧
      (r.sent a).get? m.name = if m.omits (m.get a) then none else some v.canonical := by
  have hvalue := hexact ((taken_of_ofEntries? hr h m hm).of_some hv)
  refine ⟨hvalue, ?_⟩
  rw [get?_sent_of_mem hr.names (unknown_of_ofEntries? hr h) hm, hvalue]

/-- What the object has under a key that the record does not know is sent if it is kept. -/
theorem get?_sent_of_untaken {key : String} (hkey : r.knows key = false) :
    (r.sent a).get? key =
      if r.remainder.isSome then (entries.get? key).map Value.canonical else none := by
  obtain ⟨bs, -, hmade⟩ := make_of_ofEntries? h
  cases hkeeps : r.remainder.isSome with
  | false =>
    have hrest : r.rest a = Entries.sorted (Value.canonicalMembers []) :=
      rest_eq_nil (by simpa using hkeeps) a
    rw [get?_sent_of_unknown hrest hkey]
    rfl
  | true =>
    rw [get?_sent_of_unknown (hmade ▸ hr.rest_make hkeeps bs _) hkey,
      Entries.get?_filter (fun key => !r.knows key) (by rw [hkey]; rfl)]
    rfl

end Lawful

end Record

end RecipeClient.Json
