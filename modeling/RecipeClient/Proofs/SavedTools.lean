import RecipeClient.Proofs.CommandLine
import RecipeClient.Proofs.Rewriting
import RecipeClient.Proofs.StoreIds

/-!
# Saved tools are read again

The tools of a store come out of answers, so each keeps only unknown members that are sorted, in
canonical form and not named like its own. That is why no object in the file that is saved for them
repeats a key, and why the file is read as the same tools. Only the nesting may keep it from being
read: the file wraps the tools in a list, and a tool that was answered on its own may already nest
as deep as is read. A page nests deeper than the file that is saved for its tools.

- `RecipeTool.Received`: a tool as it is read, no deeper than is allowed
- `RecipeTool.ofText_list_iff`: when the text that is written for tools is read as them
- `ToolStore.saved_tools`: what is saved for a store, and what the command line saves
-/

namespace RecipeClient

open Json

/-! ## Files -/

namespace Disk

variable {disk : Disk} {place : List String} {files : List (List String × String)}

theorem walk_of_ok {names start : List String} (h : disk.walk names start = .ok place) :
    { disk with files }.walk names start = .ok place := by
  induction names generalizing start with
  | nil => exact h
  | cons name names ih =>
    unfold walk at h ⊢
    -- the files only tell why there is no way, and here there is one
    split_ifs at h ⊢ <;> exact ih h

/-- A path that names a file names it whatever files there are. -/
theorem locate_of_ok {path : String} (h : disk.locate path = .ok place) :
    { disk with files }.locate path = .ok place := by
  unfold locate at h ⊢
  -- the guards look at the path alone
  obtain ⟨hnul, h⟩ := unless_throw_eq_ok.mp h
  obtain ⟨hlong, h⟩ := unless_throw_eq_ok.mp h
  obtain ⟨hempty, h⟩ := unless_throw_eq_ok.mp h
  refine unless_throw_eq_ok.mpr ⟨hnul, unless_throw_eq_ok.mpr ⟨hlong,
    unless_throw_eq_ok.mpr ⟨hempty, ?_⟩⟩⟩
  cases hname : (((Text.split (· == '/') path.toList).map String.ofList).filter
      (· ≠ "")).getLast? with
  | none =>
    simp only [hname] at h
    exact nomatch h
  | some name =>
    simp only [hname] at h ⊢
    obtain ⟨start, hwalk, h⟩ := bind_eq_ok.mp h
    exact bind_eq_ok.mpr ⟨start, walk_of_ok hwalk, h⟩

/-- A file that was written holds the text, in place of what it held before. -/
theorem read?_of_write {path text : String} {later : Disk} (h : disk.write path text = .ok later) :
    later.read? path = some text := by
  unfold write at h
  split at h
  · rename_i place hplace
    obtain rfl := Except.ok.inj h
    rw [read?, locate_of_ok hplace]
    exact List.lookup_cons_self
  · exact nomatch h

end Disk

/-! ## Tools -/

namespace RecipeTool

variable {tool : RecipeTool} {depth : Nat}

theorem lawful_record_one : record.Lawful 1 := lawful_record

/-- The entries of a written tool are texts, a list of texts, and the unknown members. -/
theorem mem_entries {entry : String × Value} (h : entry ∈ record.entries tool) :
    (∃ s, entry.2 = .string s) ∨ entry.2 = Codec.string.list.write tool.householdsWithTool ∨
      entry ∈ tool.other := by
  rw [Record.entries_eq] at h
  rcases List.mem_append.mp h with h | h
  · obtain ⟨m, hm, _, rfl⟩ := Record.mem_written h
    simp only [record, List.mem_cons, List.not_mem_nil, or_false] at hm
    rcases hm with rfl | rfl | rfl | rfl
    · exact Or.inl ⟨_, rfl⟩
    · exact Or.inl ⟨_, rfl⟩
    · exact Or.inl ⟨_, rfl⟩
    · exact Or.inr (Or.inl rfl)
  · exact Or.inr (Or.inr h)

theorem fits_write (h : ∀ entry ∈ tool.other, entry.2.Fits (depth + 1)) :
    (codec.write tool).Fits (depth + 2) := by
  apply Value.Fits.object
  intro entry hentry
  rcases mem_entries hentry with ⟨s, hs⟩ | hs | hother
  · exact hs ▸ .string _ s
  · exact hs ▸ .array (List.forall_mem_map.mpr fun s _ => .string _ s)
  · exact h entry hother

theorem keysDistinct_write (h : record.Tidy tool) : (codec.write tool).KeysDistinct := by
  -- no unknown member is named like a known one, so the keys of the tool itself are distinct
  apply Value.KeysDistinct.object (Record.nodup_keys_entries lawful_record_one h)
  intro entry hentry
  rcases mem_entries hentry with ⟨s, hs⟩ | hs | hother
  · exact hs ▸ .string s
  · exact hs ▸ .array (List.forall_mem_map.mpr fun s _ => .string s)
  · exact h.canonical entry hother ▸ entry.2.keysDistinct_canonical

theorem restores_households {households : List String}
    (h : (Codec.string.list.write households).Fits depth) :
    Codec.string.list.Restores depth households := by
  cases h with
  | array => exact Codec.restores_list fun s _ => Codec.restores_string s

/-- A tool that fits is restored, if its unknown members are tidy. -/
theorem restores_of_fits (h : record.Tidy tool) (hfits : (codec.write tool).Fits depth) :
    codec.Restores depth tool := by
  cases hfits with
  | object hentries =>
    refine Record.restores_of_sound lawful_record_one ⟨h, ?_, ?_⟩
    · intro m hm
      have hentry : m.omits (m.get tool) = false → (m.codec.write (m.get tool)).Fits _ :=
        fun homits => hentries _ (Record.mem_entries hm homits)
      simp only [record, List.mem_cons, List.not_mem_nil, or_false] at hm
      rcases hm with rfl | rfl | rfl | rfl
      · exact Or.inr (Codec.restores_string tool.id)
      · exact Or.inr (Codec.restores_string tool.name)
      · exact Or.inr (Codec.restores_string tool.slug)
      · -- the list of households is left out, or it fits and is restored
        cases homits : tool.householdsWithTool.isEmpty with
        | true => exact Or.inl homits
        | false => exact Or.inr (restores_households (hentry homits))
    · exact fun entry hentry => hentries entry (List.mem_append_right _ hentry)

/-- A tool as it is read at a depth. -/
structure Received (depth : Nat) (tool : RecipeTool) : Prop where
  tidy : record.Tidy tool
  fits : (codec.write tool).Fits depth

theorem Received.mono {deeper : Nat} (h : tool.Received depth) (hle : depth ≤ deeper) :
    tool.Received deeper := ⟨h.tidy, h.fits.mono hle⟩

theorem received_of_read {cs rest : List Char}
    (h : codec.read (depth + 2) cs = .ok (tool, rest)) : tool.Received (depth + 2) := by
  have hread : record.read (depth + 2) cs = .ok (tool, rest) := h
  obtain ⟨inner, hinner, horigin⟩ := Record.origin_of_read lawful_record_one hread
  obtain rfl := Nat.succ.inj hinner
  exact ⟨horigin.toTidy, fits_write horigin.fits⟩

/-! ## Lists of tools -/

section Lists

variable {tools : List RecipeTool}

theorem keysDistinct_list (h : ∀ tool ∈ tools, tool.Received depth) :
    (codec.list.write tools).KeysDistinct :=
  .array (List.forall_mem_map.mpr fun tool htool => keysDistinct_write (h tool htool).tidy)

theorem fits_list (h : ∀ tool ∈ tools, tool.Received depth) :
    (codec.list.write tools).Fits (depth + 1) :=
  .array (List.forall_mem_map.mpr fun tool htool => (h tool htool).fits)

/-- A text that is written for tools is read as the tools exactly if it nests no deeper than is
read. -/
theorem ofText_list_iff (h : ∀ tool ∈ tools, tool.Received depth)
    (hfaithful : (codec.list.write tools).Faithful) :
    codec.list.ofText (codec.list.write tools).text = .ok tools ↔
      (codec.list.write tools).Fits nestingLimit := by
  constructor
  · intro hread
    obtain ⟨rest, hread⟩ := Codec.ofText_eq_ok hread
    have hlist : readList codec.read nestingLimit _ = .ok (tools, rest) := hread
    obtain ⟨inner, hinner, hitems⟩ := Codec.read_of_mem_readList hlist
    obtain rfl := Nat.succ.inj hinner
    -- every tool was read one level further in, and fits there
    apply fits_list
    intro tool htool
    obtain ⟨front, behind, hread⟩ := hitems tool htool
    exact received_of_read hread
  · intro hfits
    refine Codec.Restores.ofText_text ?_ hfaithful false
    -- the list takes a level, and each tool fits into what is left
    cases hfits with
    | array hitems =>
      apply Codec.restores_list
      intro tool htool
      exact restores_of_fits (h tool htool).tidy (hitems _ (List.mem_map_of_mem htool))

/-- The tools of a page were read two levels further in. -/
theorem received_of_page {text : String} {page : Page RecipeTool}
    (h : (Page.codec codec).ofText text = .ok page) : ∀ tool ∈ page.items, tool.Received 125 := by
  have hlawful : (Page.record codec).Lawful 3 := Page.lawful_record RecipeTool.lawful
  obtain ⟨rest, hread⟩ := Codec.ofText_eq_ok h
  have hread : (Page.record codec).read nestingLimit text.toList = .ok (page, rest) := hread
  obtain ⟨inner, hinner, horigin⟩ := Record.origin_of_read hlawful hread
  obtain rfl := Nat.succ.inj hinner
  have hitems := horigin.members
    (.required "items" codec.list (·.items) fun r v => { r with items := v })
    (by simp [Page.record])
  rcases hitems with ⟨cs, behind, hread⟩ | habsent
  · have hlist : readList codec.read 126 cs = .ok (page.items, behind) := hread
    obtain ⟨inner, hinner, hitems⟩ := Codec.read_of_mem_readList hlist
    obtain rfl := Nat.succ.inj hinner
    intro tool htool
    obtain ⟨front, behind, hread⟩ := hitems tool htool
    exact received_of_read hread
  · -- a page has to tell its items
    exact absurd habsent (Option.some_ne_none _).symm

end Lists

theorem received_of_ofText {text : String} (h : codec.ofText text = .ok tool) :
    tool.Received nestingLimit := by
  obtain ⟨rest, hread⟩ := Codec.ofText_eq_ok h
  exact received_of_read hread

end RecipeTool

/-! ## Stores -/

namespace ToolStore

open RecipeTool (Received received_of_ofText received_of_page)

section Runs

variable {σ : Type} {line : Line σ} {state : σ} {store : ToolStore}

/-- A store that takes an answer holds only tools that came out of answers. -/
theorem received_taken {task : Task} {a : (task.operation store).Answer} {text : String}
    (hread : (task.operation store).codec.ofText text = .ok a)
    (h : ∀ tool ∈ store.items, tool.Received nestingLimit) :
    ∀ tool ∈ (task.taken store a).items, tool.Received nestingLimit := by
  intro tool htool
  -- a tool that was not there before stands in the answer
  cases task with
  | fetch => exact h tool htool
  | refresh => exact (received_of_page hread tool htool).mono (by decide)
  | create form =>
    rcases List.mem_append.mp htool with htool | htool
    · exact h tool htool
    · obtain rfl := List.mem_singleton.mp htool
      exact received_of_ofText hread
  | update =>
    rcases eq_or_mem_of_mem_upsert htool with rfl | htool
    · exact received_of_ofText hread
    · exact h tool htool
  | delete id => exact h tool (List.mem_of_mem_filter htool)

theorem received_act (action : Action) (h : ∀ tool ∈ store.items, tool.Received nestingLimit) :
    ∀ tool ∈ ((store.act action).run line state).1.items, tool.Received nestingLimit := by
  rcases store.items_act action with hsame | ⟨task, -, e, -, a, hread, htaken⟩
  · rw [hsame]
    exact h
  · rw [htaken]
    obtain ⟨_, _, _, htext⟩ := Reply.ofText_of_reading hread
    exact received_taken htext h

theorem received_acts (actions : List Action)
    (h : ∀ tool ∈ store.items, tool.Received nestingLimit) :
    ∀ tool ∈ ((store.acts actions).run line state).1.items, tool.Received nestingLimit := by
  induction actions generalizing store state with
  | nil => exact h
  | cons action actions ih =>
    rw [acts, Dialogue.run_bind]
    exact ih (received_act action h)

theorem received_start {filled : Bool} {later : σ}
    (h : (start filled).run line state = (.ok store, later)) :
    ∀ tool ∈ store.items, tool.Received nestingLimit := by
  cases filled with
  | false =>
    obtain rfl := Except.ok.inj (congrArg Prod.fst h)
    exact nofun
  | true =>
    obtain ⟨request, _, hstart⟩ := start_filled
    rw [hstart] at h
    obtain ⟨page, hpage, rfl⟩ := map_eq_ok.mp (congrArg Prod.fst h)
    obtain ⟨_, _, _, htext⟩ := Reply.ofText_of_reading hpage
    intro tool htool
    exact (received_of_page htext tool htool).mono (by decide)

section Listed

variable {page : Page RecipeTool} (h : (listing.perform.run line state).1 = .ok page)
include h

theorem received_of_listing : ∀ tool ∈ page.items, tool.Received 125 := by
  obtain ⟨request, hrequest, -⟩ := start_filled
  rw [Operation.run_perform hrequest] at h
  obtain ⟨_, _, _, htext⟩ := Reply.ofText_of_reading h
  exact received_of_page htext

theorem start_of_listing : ((start true).run line state).1 = .ok { items := page.items } := by
  obtain ⟨request, hrequest, hstart⟩ := start_filled
  rw [Operation.run_perform hrequest] at h
  rw [hstart]
  exact map_eq_ok.mpr ⟨page, h, rfl⟩

/-- The command that lists the tools prints their names, and writes them to the file. -/
theorem run_tools {disk later : Disk} {path : String}
    (hwrite : disk.write path (Cli.toolFile page.items) = .ok later) :
    ((Cli.tools (some path) disk).run line state).1 =
      { succeeded := true, output := Cli.toolLines page.items, disk := later } := by
  rw [Cli.tools, Dialogue.run_bind, start_of_listing h]
  simp only [hwrite]
  rfl

end Listed

theorem items_create {tool : RecipeTool}
    (h : ∀ request, (line.reply request state).1.reading RecipeTool.codec request = .ok tool) :
    ((store.acts [.create none]).run line state).1.items = store.items ++ [tool] := by
  have hgiven : ¬ (Task.create none).GivenUp := not_false
  have haction : store.act (.create none) = _ := store.act_action (.create none)
  obtain ⟨request, -, heq⟩ := carryOut_eq store hgiven
  rw [acts, Dialogue.run_bind, haction, heq]
  exact congrArg (fun answer => (store.reportOf (.create none) answer).store.items) (h request)

end Runs

/-! ## Saved stores -/

/-- What is saved for the tools of a store, however it came to hold them, repeats no key in any
object, and is read as the same tools exactly if it nests no deeper than is read, which it exceeds
by at most one. A run of the command line that is answered a page of tools prints their names in
order, and leaves a file that is read as the same tools, in place of what the file held before. -/
theorem saved_tools {σ : Type} (line : Line σ) :
    (∀ filled before opened state actions,
      (start filled).run line before = (.ok opened, state) →
      let items := ((opened.acts actions).run line state).1.items
      let file := RecipeTool.codec.list.write items
      Cli.toolFile items = file.text ∧ file.KeysDistinct ∧ file.Fits (nestingLimit + 1) ∧
      ((∀ d ∈ file.doubles, d.ReadsBack) →
        (RecipeTool.codec.list.ofText (Cli.toolFile items) = .ok items ↔
          file.Fits nestingLimit))) ∧
    (∀ config path more disk before client state place, ∀ page : Page RecipeTool,
      (Client.ofConfig config >>= Cli.enter config).run line before = ((true, client), state) →
      (listing.perform.run line state).1 = .ok page →
      disk.locate path = .ok place →
      let outcome := ((Cli.run config ("tools" :: path :: more) disk).run line before).1
      let file := RecipeTool.codec.list.write page.items
      outcome.succeeded = true ∧ outcome.complaint = none ∧
      outcome.output = String.join (page.items.map fun tool => Text.titleCase tool.name ++ "\n") ∧
      outcome.disk.read? path = some file.text ∧ file.KeysDistinct ∧
      ((∀ d ∈ file.doubles, d.ReadsBack) →
        RecipeTool.codec.list.ofText file.text = .ok page.items)) := by
  refine ⟨?_, ?_⟩
  · intro filled before opened state actions hstart items file
    have hitems : ∀ tool ∈ items, tool.Received nestingLimit :=
      received_acts actions (received_start hstart)
    exact ⟨rfl, RecipeTool.keysDistinct_list hitems, RecipeTool.fits_list hitems,
      RecipeTool.ofText_list_iff hitems⟩
  · intro config path more disk before client state place page hentered hlist hplace outcome file
    have hitems := received_of_listing hlist
    have hwrite : disk.write path file.text =
        .ok { disk with files := (place, file.text) :: disk.files } := by rw [Disk.write, hplace]
    have houtcome : outcome = Cli.Outcome.mk true (Cli.toolLines page.items) none
        { disk with files := (place, file.text) :: disk.files } := by
      show ((Cli.run config ("tools" :: path :: more) disk).run line before).1 = _
      -- a run that got in goes on with its command
      rw [Cli.run, ← Dialogue.bind_assoc, Dialogue.run_bind, hentered]
      exact run_tools hlist hwrite
    rw [houtcome]
    refine ⟨rfl, rfl, rfl, Disk.read?_of_write hwrite, RecipeTool.keysDistinct_list hitems, ?_⟩
    intro hfaithful
    -- in the page the tools stood one level further in than in the file
    have hfits : file.Fits 126 := RecipeTool.fits_list hitems
    exact (RecipeTool.ofText_list_iff hitems hfaithful).mpr (hfits.mono (by decide))

namespace Kitchen

/-- A line on which a tool is listed, with unknown members out of order, and another is created. -/
def line : Line Nat where
  reply _ stage :=
    match stage with
    | 0 => (.answer .okay ("\x7b\"page\":1,\"per_page\":-1,\"total\":1,\"items\":[" ++
        "\x7b\"weight\":2.5,\"name\":\"hand whisk\"," ++
        "\"x\":\x7b\"b\":[1],\"a\":null,\"b\":[]\x7d\x7d]\x7d"), 1)
    | _ => (.answer .okay "\x7b\"name\":\"Oven\",\"id\":\"t2\"\x7d", 2)
  bear _ stage := stage

def oven : RecipeTool := { id := "t2", name := "Oven" }

/-- A disk with a file that is to be replaced. -/
def disk : Disk := { files := [(["tools.json"], "[]")] }

def saved : String :=
  "[\x7b\"id\":\"\",\"name\":\"hand whisk\",\"slug\":\"\"," ++
    "\"weight\":2.5,\"x\":\x7b\"a\":null,\"b\":[]\x7d\x7d]"

section Listed

variable {page : Page RecipeTool} (h : (listing.perform.run line 0).1 = .ok page)
include h

theorem run_start : (start true).run line 0 = (.ok { items := page.items }, 1) := by
  have hopened : ((start true).run line 0).1 = .ok { items := page.items } := start_of_listing h
  have hlater : ((start true).run line 0).2 = 1 := by
    obtain ⟨request, -, hfilled⟩ := start_filled
    rw [hfilled]
    rfl
  exact Prod.ext hopened hlater

theorem received_with_oven : ∀ tool ∈ page.items ++ [oven], tool.Received 125 := by
  intro tool htool
  rcases List.mem_append.mp htool with htool | htool
  · exact received_of_listing h tool htool
  · obtain rfl := List.mem_singleton.mp htool
    exact ⟨⟨List.Pairwise.nil, nofun, nofun⟩, RecipeTool.fits_write nofun⟩

end Listed

theorem faithful_with_oven {tools : List RecipeTool}
    (h : (RecipeTool.codec.list.write tools).Faithful) :
    (RecipeTool.codec.list.write (tools ++ [oven])).Faithful := by
  refine Value.Faithful.array (List.forall_mem_map.mpr ?_)
  intro tool htool
  rcases List.mem_append.mp htool with htool | htool
  · exact h.item (List.mem_map_of_mem htool)
  · obtain rfl := List.mem_singleton.mp htool
    exact nofun

end Kitchen

open Kitchen in
/-- The file takes the place of the one on the disk, with the unknown members in their order; and
what is saved when another tool was created is read again as both. -/
theorem saved_tools_kitchen :
    let outcome := ((Cli.run {} ["tools", "tools.json"] disk).run line 0).1
    ∃ page : Page RecipeTool, (listing.perform.run line 0).1 = .ok page ∧
      (RecipeTool.codec.list.write page.items).doubles.length = 1 ∧
      outcome.output = "Hand Whisk\n" ∧ outcome.disk.read? "tools.json" = some saved ∧
      RecipeTool.codec.list.ofText saved = .ok page.items ∧
      (start true).run line 0 = (.ok { items := page.items }, 1) ∧
      ((acts { items := page.items } [.create none]).run line 1).1.items = page.items ++ [oven] ∧
      RecipeTool.codec.list.ofText (Cli.toolFile (page.items ++ [oven])) =
        .ok (page.items ++ [oven]) := by
  intro outcome
  have hread : (listing.perform.run line 0).1.toOption.map (fun (page : Page RecipeTool) =>
      let file := RecipeTool.codec.list.write page.items
      (file.text, Cli.toolLines page.items, file.doubles.length,
        file.doubles.all fun d => d.text.head?.any Char.isDigit &&
          decide ((scanNumber false d.text).toOption = some (.double d, [])))) =
      some (saved, "Hand Whisk\n", 1, true) := by
    decide +kernel
  obtain ⟨page, hpage, hfacts⟩ := Option.map_eq_some_iff.mp hread
  obtain ⟨htext, hfacts⟩ := Prod.mk.inj hfacts
  obtain ⟨hlines, hfacts⟩ := Prod.mk.inj hfacts
  obtain ⟨hlength, hall⟩ := Prod.mk.inj hfacts
  have hlist := ok_of_toOption hpage
  have hfaithful := Value.faithful_of_all hall
  -- what the run leaves behind
  have hplace : disk.locate "tools.json" = .ok ["tools.json"] := by rfl
  obtain ⟨-, -, houtput, hfile, -, hagain⟩ :=
    (saved_tools line).2 {} "tools.json" [] disk 0 _ 0 _ page rfl hlist hplace
  rw [htext] at hfile hagain
  -- what a store holds that goes on with the page
  have hitems : ((acts { items := page.items } [.create none]).run line 1).1.items =
      page.items ++ [oven] := rfl
  obtain ⟨-, -, -, hiff⟩ := (saved_tools line).1 true 0 _ 1 [.create none] (run_start hlist)
  rw [hitems] at hiff
  have hfits : Value.Fits 126 _ := RecipeTool.fits_list (received_with_oven hlist)
  exact ⟨page, hlist, hlength, houtput.trans hlines, hfile, hagain hfaithful, run_start hlist,
    hitems, (hiff (faithful_with_oven hfaithful)).mpr (hfits.mono (by decide))⟩

/-! ## Tools that nest too deep -/

namespace Deep

/-- Lists within one another. -/
def nested : Nat → Value
  | 0 => .array []
  | n + 1 => .array [nested n]

theorem canonical_nested (n : Nat) : (nested n).canonical = nested n := by
  induction n with
  | zero => rfl
  | succ n ih => simp [nested, Value.canonical, Value.canonicalItems, ih]

theorem doubles_nested (n : Nat) : (nested n).doubles = [] := by
  induction n with
  | zero => rfl
  | succ n ih => simp [nested, Value.doubles, Value.itemDoubles, ih]

theorem fits_nested_iff {n depth : Nat} : (nested n).Fits depth ↔ n < depth := by
  -- every list takes a level, the innermost one as well
  induction n generalizing depth with
  | zero =>
    constructor
    · rintro ⟨⟩
      exact Nat.succ_pos _
    · intro h
      obtain ⟨inner, rfl⟩ := Nat.exists_eq_succ_of_ne_zero (Nat.ne_of_gt h)
      exact .array nofun
  | succ n ih =>
    constructor
    · intro h
      cases h with
      | array hitems => exact Nat.succ_lt_succ (ih.mp (hitems _ (List.mem_singleton_self _)))
    · intro h
      obtain ⟨inner, rfl⟩ := Nat.exists_eq_succ_of_ne_zero (Nat.ne_of_gt (Nat.zero_lt_of_lt h))
      exact .array (List.forall_mem_singleton.mpr (ih.mpr (Nat.lt_of_succ_lt_succ h)))

/-- A tool with an unknown member that nests, in the tool, as deep as is read. -/
def whisk : RecipeTool := { name := "Whisk", other := [("deep", nested 125)] }

theorem received_whisk : whisk.Received nestingLimit where
  tidy :=
    { ascending := List.pairwise_singleton _ _
      canonical := List.forall_mem_singleton.mpr (canonical_nested 125)
      unknown := List.forall_mem_singleton.mpr (by decide) }
  fits :=
    RecipeTool.fits_write (List.forall_mem_singleton.mpr (fits_nested_iff.mpr (by decide)))

theorem write_whisk : RecipeTool.codec.write whisk =
    .object [("id", .string ""), ("name", .string "Whisk"), ("slug", .string ""),
      ("deep", nested 125)] := rfl

theorem doubles_whisk : (RecipeTool.codec.write whisk).doubles = [] := by
  simp [write_whisk, Value.doubles, Value.memberDoubles, doubles_nested]

theorem ofText_whisk :
    RecipeTool.codec.ofText (RecipeTool.codec.write whisk).text = .ok whisk := by
  obtain ⟨htidy, hfits⟩ := received_whisk
  have hfaithful : (RecipeTool.codec.write whisk).Faithful := by
    intro d hd
    rw [doubles_whisk] at hd
    exact absurd hd List.not_mem_nil
  exact (RecipeTool.restores_of_fits htidy hfits).ofText_text hfaithful false

theorem doubles_file : (RecipeTool.codec.list.write [whisk]).doubles = [] := by
  show Value.itemDoubles [RecipeTool.codec.write whisk] = []
  simp [Value.itemDoubles, doubles_whisk]

theorem not_fits_file : ¬ (RecipeTool.codec.list.write [whisk]).Fits nestingLimit := by
  intro hfits
  -- the member is 126 lists, and within the list and the tool 125 levels are left
  cases hfits with
  | array htools =>
    have hwhisk := htools _ (List.mem_singleton_self _)
    rw [write_whisk] at hwhisk
    cases hwhisk with
    | object hmembers =>
      have hnested := hmembers ("deep", nested 125) (by simp)
      exact absurd (fits_nested_iff.mp hnested) (by decide)

/-- A line on which the tool is created. -/
def line : Line Unit where
  reply _ _ := (.answer .okay (RecipeTool.codec.write whisk).text, ())
  bear _ _ := ()

theorem reading_whisk (request : Request) :
    (line.reply request ()).1.reading RecipeTool.codec request = .ok whisk := by
  have hmeaning : Reply.meaning (RecipeTool.codec.write whisk).text =
      (RecipeTool.codec.write whisk).text := by
    apply if_neg
    rw [write_whisk, Text.isAllBlank, Value.text, String.toList_ofList, Value.chars, List.all_cons]
    -- a brace stands in front
    exact Bool.eq_false_iff.mp rfl
  apply Reply.reading_answer
  rw [hmeaning]
  exact ofText_whisk

end Deep

open Deep in
/-- The tool comes out of an answer, but is not read from the file that is saved for it: there it
stands in a list. -/
theorem not_saved_deep :
    let items := ((acts {} [.create none]).run line ()).1.items
    let file := RecipeTool.codec.list.write items
    (start false).run line () = (.ok {}, ()) ∧ items = [whisk] ∧ file.doubles = [] ∧
      RecipeTool.codec.list.ofText (Cli.toolFile items) ≠ .ok items := by
  have hitems : ((acts {} [.create none]).run line ()).1.items = [whisk] :=
    items_create reading_whisk
  rw [hitems]
  refine ⟨rfl, rfl, doubles_file, ?_⟩
  intro hread
  have hfaithful : (RecipeTool.codec.list.write [whisk]).Faithful := by
    intro d hd
    rw [doubles_file] at hd
    exact absurd hd List.not_mem_nil
  have hreceived := List.forall_mem_singleton.mpr received_whisk
  exact not_fits_file ((RecipeTool.ofText_list_iff hreceived hfaithful).mp hread)

end ToolStore

end RecipeClient
