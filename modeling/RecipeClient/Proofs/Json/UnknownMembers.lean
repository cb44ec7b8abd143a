import RecipeClient.Proofs.Json.Lookup
import RecipeClient.Proofs.Json.RecordRestoring
import RecipeClient.Proofs.Json.SkippedReading

/-!
# Unknown members are kept

A record that has a place for unknown members holds each of them as it stands in the text, in
canonical form, the last one of each key. When it is written, whatever the values of its members
are by then, they are written with it, and they never meet a member that it knows.

- `spelledMembers`: the members of an object as they stand in a text
- `Record.rest_of_ofText`: a record that was read holds the unknown members of its text
- `Record.get?_sent_of_unknown`, `Record.get?_sent_of_mem`: what is written under a key
-/

namespace RecipeClient.Json

/-! ## Members as they stand in a text -/

/-- Passes over a value, and keeps the text from it on. -/
def spell : Step (List Char) := fun cs => do
  let rest ← skipValue cs
  return (cs, rest)

/-- Reads the members of an object, each as its key with the text from its value on. -/
def spelledMembers : Reader (List (String × List Char)) := fun _ cs =>
  match skipSpace cs with
  | '\x7b' :: rest => membersOf spell (rest.length + 1) true rest
  | _ => .error (.malformed .expectedValue)

/-- What members have under a key: nothing, or the value that is read from the last of them. -/
inductive HasAt (members : List (String × List Char)) (key : String) : Option Value → Prop where
  | absent (missing : ∀ m ∈ members, m.1 ≠ key) : HasAt members key none
  | present {before behind : List (String × List Char)} {text rest : List Char} {v : Value}
      (split : members = before ++ (key, text) :: behind) (last : ∀ m ∈ behind, m.1 ≠ key)
      (read : Value.read (nestingLimit - 1) text = .ok (v, rest)) :
      HasAt members key (some v.canonical)

section Spelling

variable {members : List (String × List Char)} {key : String} {found : Option Value}

theorem HasAt.cons_of_ne (h : HasAt members key found) {m : String × List Char} (hm : m.1 ≠ key) :
    HasAt (m :: members) key found := by
  cases h with
  | absent missing =>
    apply HasAt.absent
    intro n hn
    rcases List.mem_cons.mp hn with rfl | hn
    · exact hm
    · exact missing n hn
  | present split last read =>
    subst split
    exact .present (List.cons_append ..).symm last read

/-- A member counts if no later one has its key. -/
theorem HasAt.cons (h : HasAt members key found) {text rest : List Char} {v : Value}
    (hread : Value.read (nestingLimit - 1) text = .ok (v, rest)) :
    HasAt ((key, text) :: members) key (found.or (some v.canonical)) := by
  cases h with
  | absent missing => exact .present (List.nil_append _).symm missing hread
  | present split last read =>
    subst split
    exact .present (List.cons_append ..).symm last read

theorem find?_eq_none_of_ne (h : ∀ m ∈ members, m.1 ≠ key) :
    members.reverse.find? (·.1 == key) = none := by
  apply List.find?_eq_none.mpr
  intro m hm
  simpa using h m (List.mem_reverse.mp hm)

/-- What members have under a key is found from the end. -/
theorem HasAt.eq_find? (h : HasAt members key found) :
    found = (members.reverse.find? (·.1 == key)).bind fun m =>
      (Value.read (nestingLimit - 1) m.2).toOption.map fun read => read.1.canonical := by
  cases h with
  | absent missing =>
    rw [find?_eq_none_of_ne missing]
    rfl
  | @present before behind text rest v split last read =>
    have hfind : members.reverse.find? (·.1 == key) = some (key, text) := by
      rw [split, List.reverse_append, List.reverse_cons, List.append_assoc, List.find?_append,
        find?_eq_none_of_ne last, Option.none_or, List.singleton_append]
      exact List.find?_cons_of_pos (beq_self_eq_true key)
    rw [hfind, Option.bind_some, read]
    rfl

/-- Members have one thing under a key. -/
theorem HasAt.unique {other : Option Value} (h : HasAt members key found)
    (hother : HasAt members key other) : found = other :=
  h.eq_find?.trans hother.eq_find?.symm

theorem membersOf_spell {first : Bool} {cs rest : List Char}
    (h : SkippedMembers members first cs rest) {fuel : Nat} (hfuel : cs.length < fuel) :
    membersOf spell fuel first cs = .ok (members, rest) := by
  induction h generalizing fuel with
  | done closed =>
    cases fuel with
    | zero => exact absurd hfuel (Nat.not_lt_zero _)
    | succ fuel =>
      rw [membersOf, closed]
      rfl
  | @member members first key cs front value behind rest next separated skipped others ih =>
    cases fuel with
    | zero => exact absurd hfuel (Nat.not_lt_zero _)
    | succ fuel =>
      have hvalue := length_lt_of_skipSpace (colon_eq_ok.mp separated)
      have hbehind := length_skipValue_lt skipped
      have hfront := length_nextKey_lt next
      have hspell : spell value = .ok (value, behind) := by
        rw [spell, skipped]
        rfl
      have hothers : membersOf spell fuel false behind = .ok (members, rest) := ih (by omega)
      simp only [membersOf, next, ok_bind, separated, hspell, hothers]
      rfl

end Spelling

/-! ## Members read as values -/

/-- The members of an object that are not known, read as values. -/
inductive ReadOutside (known : String → Bool) (depth : Nat) :
    List (String × List Char) → Entries → Prop where
  | nil : ReadOutside known depth [] []
  | known {key : String} {text : List Char} {members : List (String × List Char)} {read : Entries}
      (old : known key = true) (others : ReadOutside known depth members read) :
      ReadOutside known depth ((key, text) :: members) read
  | unknown {key : String} {text rest : List Char} {v : Value}
      {members : List (String × List Char)} {read : Entries} (new : known key = false)
      (value : Value.read depth text = .ok (v, rest))
      (others : ReadOutside known depth members read) :
      ReadOutside known depth ((key, text) :: members) ((key, v) :: read)

namespace ReadOutside

variable {known : String → Bool} {depth : Nat} {members : List (String × List Char)}
  {read : Entries}

theorem unknown_of_mem (h : ReadOutside known depth members read) :
    ∀ entry ∈ read, known entry.1 = false := by
  induction h with
  | nil => exact fun entry hentry => absurd hentry List.not_mem_nil
  | known old others ih => exact ih
  | unknown new value others ih =>
    intro entry hentry
    rcases List.mem_cons.mp hentry with rfl | hentry
    · exact new
    · exact ih entry hentry

/-- Under a key that is not known the members have what was read. -/
theorem hasAt (h : ReadOutside known (nestingLimit - 1) members read) {key : String}
    (hkey : known key = false) : HasAt members key ((read.get? key).map Value.canonical) := by
  induction h with
  | nil => exact .absent fun m hm => absurd hm List.not_mem_nil
  | @known k text _ _ old _ ih =>
    apply ih.cons_of_ne
    rintro rfl
    exact absurd (old.symm.trans hkey) (by decide)
  | @unknown k text _ v _ read new value _ ih =>
    rw [Entries.get?_cons]
    by_cases hk : k = key
    · subst hk
      rw [if_pos rfl]
      have hcons := ih.cons value
      cases hfound : Entries.get? read k <;> rw [hfound] at hcons <;> exact hcons
    · rw [if_neg hk, Option.or_none]
      exact ih.cons_of_ne hk

end ReadOutside

theorem readOutside_of_membersOf {depth fuel : Nat} {first : Bool} {cs rest : List Char}
    {read : Entries} (h : membersOf (Value.read depth) fuel first cs = .ok (read, rest)) :
    ∃ members, SkippedMembers members first cs rest ∧
      ReadOutside (fun _ => false) depth members read := by
  induction fuel generalizing first cs read with
  | zero => exact absurd h nofun
  | succ fuel ih =>
    obtain ⟨⟨key, front⟩, hnext, h⟩ := bind_eq_ok.mp h
    cases key with
    | none =>
      obtain ⟨rfl, rfl⟩ := ok_pair_inj.mp h
      exact ⟨[], .done hnext, .nil⟩
    | some key =>
      obtain ⟨text, hcolon, h⟩ := bind_eq_ok.mp h
      obtain ⟨⟨v, behind⟩, hvalue, h⟩ := bind_eq_ok.mp h
      obtain ⟨⟨others, _⟩, hothers, h⟩ := bind_eq_ok.mp h
      obtain ⟨rfl, rfl⟩ := ok_pair_inj.mp h
      obtain ⟨members, hskipped, hread⟩ := ih hothers
      exact ⟨_, .member hnext hcolon (skips_readValue depth hvalue) hskipped,
        .unknown rfl hvalue hread⟩

/-- An object is spelled as it is passed over. -/
theorem spelledMembers_whole {text : String} {front rest : List Char}
    {members : List (String × List Char)} (hfront : skipSpace text.toList = '\x7b' :: front)
    (h : SkippedMembers members true front rest) (hend : finish rest = .ok ()) :
    spelledMembers.whole text = .ok members := by
  have hspelled := membersOf_spell h (Nat.lt_succ_self _)
  rw [Reader.whole, spelledMembers, hfront]
  simp only [hspelled, ok_bind, hend]
  rfl

theorem object_of_canonical {v : Value} {entries : Entries} (h : v.canonical = .object entries) :
    ∃ raw, v = .object raw ∧ entries = Entries.sorted (Value.canonicalMembers raw) := by
  cases v with
  | object raw => exact ⟨raw, rfl, (Value.object.inj h).symm⟩
  | _ => exact absurd h nofun

/-- Members have under each key what the whole object has, if it is read as a value. -/
theorem hasAt_of_ofText {text : String} {members : List (String × List Char)} {entries : Entries}
    (hspelled : spelledMembers.whole text = .ok members)
    (h : Value.ofText text = .ok (.object entries)) (key : String) :
    HasAt members key (entries.get? key) := by
  obtain ⟨v, hwhole, hcanonical⟩ := map_eq_ok.mp h
  obtain ⟨raw, rfl, rfl⟩ := object_of_canonical hcanonical
  obtain ⟨⟨_, _⟩, hmembers, hspelled⟩ := bind_eq_ok.mp hspelled
  obtain ⟨_, _, hspelled⟩ := bind_eq_ok.mp hspelled
  obtain rfl := pure_eq_ok.mp hspelled
  obtain ⟨⟨_, rest⟩, hread, hwhole⟩ := bind_eq_ok.mp hwhole
  obtain ⟨_, _, hwhole⟩ := bind_eq_ok.mp hwhole
  obtain rfl := pure_eq_ok.mp hwhole
  unfold spelledMembers at hmembers
  split at hmembers
  · rename_i front hfront
    -- the same members are read as values and passed over
    rw [Value.read.eq_def] at hread
    simp only [hfront, nestingLimit] at hread
    obtain ⟨⟨_, _⟩, hvalues, hread⟩ := bind_eq_ok.mp hread
    obtain ⟨hraw, rfl⟩ := ok_pair_inj.mp hread
    obtain rfl := Value.object.inj hraw
    obtain ⟨others, hskipped, houtside⟩ := readOutside_of_membersOf hvalues
    have hsame := hmembers.symm.trans (membersOf_spell hskipped (Nat.lt_succ_self _))
    obtain ⟨rfl, _⟩ := ok_pair_inj.mp hsame
    rw [Entries.get?_canonical]
    exact houtside.hasAt rfl
  · exact absurd hmembers nofun

namespace Record

variable {ρ : Type} {r : Record ρ} {depth : Nat}

/-! ## Reading -/

theorem knows_of_find? {key : String} {m : Member ρ}
    (h : r.members.find? (·.name == key) = some m) : r.knows key = true := by
  obtain ⟨hm, rfl⟩ := mem_of_find? h
  exact knows_name hm

theorem Collects.readOutside {members : List (String × List Char)} {g : Gathered ρ}
    (h : r.Collects depth members g) (hkeeps : r.remainder.isSome = true) :
    ReadOutside r.knows depth members g.unknown := by
  induction h with
  | nil => exact .nil
  | known found read others ih => exact .known (knows_of_find? found) ih
  | kept unknown keeps read others ih => exact .unknown unknown read ih
  | dropped unknown drops others ih =>
    rw [drops] at hkeeps
    cases hkeeps

/-- The record has a place for unknown members, and the members that it knows have different names
and are passed over. -/
structure KeepsUnknown (r : Record ρ) : Prop where
  names : (r.members.map (·.name)).Nodup
  members : ∀ m ∈ r.members, m.Skips
  place : ∃ place, r.remainder = some place ∧ ∀ a unknown, place.get (place.set a unknown) = unknown

theorem rest_of_ofGathered (hr : r.KeepsUnknown) {g : Gathered ρ} {a : ρ}
    (h : r.ofGathered g = .ok a) :
    r.rest a = Entries.sorted (Value.canonicalMembers g.unknown) := by
  obtain ⟨place, hplace, hget⟩ := hr.place
  obtain ⟨b, _, h⟩ := bind_eq_ok.mp h
  rw [hplace] at h
  obtain rfl := pure_eq_ok.mp h
  rw [rest, hplace]
  exact hget b _

/-- A record that was read from a text keeps the members of the text that it does not know. -/
theorem rest_of_ofText (hr : r.KeepsUnknown) {text : String} {a : ρ}
    (h : r.codec.ofText text = .ok a) :
    ∃ members read, spelledMembers.whole text = .ok members ∧
      ReadOutside r.knows (nestingLimit - 1) members read ∧
      r.rest a = Entries.sorted (Value.canonicalMembers read) := by
  obtain ⟨place, hplace, _⟩ := hr.place
  have hkeeps : r.remainder.isSome = true := hplace ▸ rfl
  obtain ⟨⟨b, rest⟩, hread, h⟩ := bind_eq_ok.mp h
  obtain ⟨_, hend, h⟩ := bind_eq_ok.mp h
  obtain rfl := pure_eq_ok.mp h
  replace hread : r.read nestingLimit text.toList = .ok (b, rest) := hread
  unfold read at hread
  split at hread
  · exact absurd hread nofun
  · rename_i hfront
    obtain ⟨⟨g, behind⟩, hgather, hread⟩ := bind_eq_ok.mp hread
    obtain ⟨_, hmade, hread⟩ := bind_eq_ok.mp hread
    obtain ⟨rfl, rfl⟩ := ok_pair_inj.mp hread
    obtain ⟨members, hskipped, hcollects, -⟩ := collects_of_gatherAll_nil hr.members hgather
    exact ⟨members, g.unknown, spelledMembers_whole hfront hskipped hend,
      hcollects.readOutside hkeeps, rest_of_ofGathered hr hmade⟩
  · rw [if_pos hkeeps] at hread
    exact absurd hread nofun
  · exact absurd hread nofun

/-- A record that was taken from a value keeps the entries that it does not know. -/
theorem rest_of_ofValue? (hr : r.KeepsUnknown) {entries : Entries} {a : ρ}
    (h : r.codec.ofValue? (.object entries) = some a) :
    r.rest a =
      Entries.sorted (Value.canonicalMembers (entries.filter fun entry => !r.knows entry.1)) := by
  obtain ⟨place, hplace, hget⟩ := hr.place
  obtain ⟨b, _, h⟩ := Option.bind_eq_some_iff.mp h
  rw [hplace] at h
  obtain rfl := Option.some.inj h
  rw [rest, hplace]
  exact hget b _

/-! ## Writing -/

/-- The entries of a written record in canonical form. -/
def sent (r : Record ρ) (a : ρ) : Entries := Entries.sorted (Value.canonicalMembers (r.entries a))

theorem toValue_eq (r : Record ρ) (a : ρ) : r.codec.toValue a = .object (r.sent a) := rfl

theorem not_mem_keys_written {key : String} (hkey : r.knows key = false) (a : ρ) :
    key ∉ Entries.keys (r.members.filterMap (·.written? a)) := by
  intro hmem
  obtain ⟨entry, hentry, rfl⟩ := List.mem_map.mp hmem
  obtain ⟨m, hm, _, rfl⟩ := mem_written hentry
  exact absurd ((knows_name hm).symm.trans hkey) (by decide)

/-- What is sent under a key that the record does not know. -/
theorem get?_sent_of_unknown {a : ρ} {unknown : Entries}
    (hrest : r.rest a = Entries.sorted (Value.canonicalMembers unknown)) {key : String}
    (hkey : r.knows key = false) :
    (r.sent a).get? key = (unknown.get? key).map Value.canonical := by
  rw [sent, Entries.get?_canonical, entries_eq, Entries.get?_append, hrest, Entries.get?_canonical,
    Entries.get?_eq_none.mpr (not_mem_keys_written hkey a), Option.or_none, Option.map_map]
  congr 1
  exact funext Value.canonical_canonical

/-- What is sent under the name of a member. -/
theorem get?_sent_of_mem (hnames : (r.members.map (·.name)).Nodup) {a : ρ}
    (hrest : ∀ entry ∈ r.rest a, r.knows entry.1 = false) {m : Member ρ} (hm : m ∈ r.members) :
    (r.sent a).get? m.name =
      if m.omits (m.get a) then none else some (m.codec.toValue (m.get a)) := by
  have hnone : (r.rest a).get? m.name = none := by
    apply Entries.get?_eq_none.mpr
    intro hmem
    obtain ⟨entry, hentry, hname⟩ := List.mem_map.mp hmem
    have hunknown := hrest entry hentry
    rw [hname, knows_name hm] at hunknown
    exact absurd hunknown (by decide)
  rw [sent, Entries.get?_canonical, entries_eq, Entries.get?_append, hnone, Option.none_or]
  split
  · rename_i homits
    have hmissing : m.name ∉ Entries.keys (r.members.filterMap (·.written? a)) := by
      intro hmem
      obtain ⟨entry, hentry, hname⟩ := List.mem_map.mp hmem
      obtain ⟨n, hn, hkept, rfl⟩ := mem_written hentry
      -- only the member itself has its name
      obtain rfl := List.inj_on_of_nodup_map hnames hn hm hname
      exact absurd (homits.symm.trans hkept) (by decide)
    rw [Entries.get?_eq_none.mpr hmissing]
    rfl
  · rename_i hkept
    have hwritten : m.written? a = some (m.name, m.codec.write (m.get a)) := by
      rw [Member.written?, if_neg hkept]
    have hmem : (m.name, m.codec.write (m.get a)) ∈ r.members.filterMap (·.written? a) :=
      List.mem_filterMap.mpr ⟨m, hm, hwritten⟩
    rw [Entries.get?_of_mem (hnames.sublist (keys_written_sublist _ a)) hmem]
    rfl

end Record

end RecipeClient.Json
