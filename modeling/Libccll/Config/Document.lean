import Libccll.Config.Agreement

/-! What a configuration file says, written out and looked up again.
A document has settings and remarks, some in front of the first section and some in a section.
-/

namespace Libccll.Ini

open Foundation.CString Txt

/-- Spaces and tabs only. -/
def Blank (s : List UInt8) : Prop := s.all isBlank = true

instance (s : List UInt8) : Decidable (Blank s) := inferInstanceAs (Decidable (_ = _))

/-- No blank at either end. -/
def Tight (s : List UInt8) : Prop :=
  s.head?.any isBlank = false ∧ s.getLast?.any isBlank = false

instance (s : List UInt8) : Decidable (Tight s) := inferInstanceAs (Decidable (_ ∧ _))

/-- Nothing that ends a line or a string. -/
def Inline (s : List UInt8) : Prop := chr '\n' ∉ s ∧ chr '\r' ∉ s ∧ 0 ∉ s

instance (s : List UInt8) : Decidable (Inline s) := inferInstanceAs (Decidable (_ ∧ _ ∧ _))

/-- The first character of a comment. -/
def isMark (b : UInt8) : Bool := b = chr ';' ∨ b = chr '#'

/-- A name that a setting can have. -/
def Keylike (key : List UInt8) : Prop :=
  key ≠ [] ∧ Tight key ∧ Inline key ∧ chr '=' ∉ key
  ∧ key.head?.any (fun b => isMark b || b == chr '[') = false

instance (key : List UInt8) : Decidable (Keylike key) :=
  inferInstanceAs (Decidable (_ ∧ _ ∧ _ ∧ _ ∧ _))

/-- A key and its value, and the blanks around them. -/
structure Setting where
  key : List UInt8
  value : List UInt8
  lead : List UInt8
  gap : List UInt8
  gap' : List UInt8
  trail : List UInt8
  keylike : Keylike key
  tight : Tight value
  plain : Inline value
  blank : Blank lead ∧ Blank gap ∧ Blank gap' ∧ Blank trail

def Setting.line (setting : Setting) : List UInt8 :=
  setting.lead ++ setting.key ++ setting.gap
  ++ chr '=' :: (setting.gap' ++ setting.value ++ setting.trail)

/-- A line that says nothing: a comment, or one with blanks only. -/
structure Remark where
  line : List UInt8
  plain : Inline line
  mute : line.head?.any isMark = true ∨ Blank line

inductive Item where
  | note (remark : Remark)
  | assign (setting : Setting)

def Item.line : Item → List UInt8
  | .note remark => remark.line
  | .assign setting => setting.line

def Item.pair? : Item → Option (List UInt8 × List UInt8)
  | .note _ => none
  | .assign setting => some (setting.key, setting.value)

/-- A section, whose name `_sec` can hold. -/
structure Block where
  name : List UInt8
  items : List Item
  plain : Inline name
  short : name.length < 64

def Block.header (block : Block) : List UInt8 := chr '[' :: (block.name ++ [chr ']'])

def Block.lines (block : Block) : List (List UInt8) := block.header :: block.items.map Item.line

structure Document where
  top : List Item
  blocks : List Block

def Document.lines (doc : Document) : List (List UInt8) :=
  doc.top.map Item.line ++ doc.blocks.flatMap Block.lines

def newline (line : List UInt8) : List UInt8 := line ++ [chr '\n']

/-- The document as a text. -/
def Document.render (doc : Document) : List UInt8 := doc.lines.flatMap newline

/-- What the document says: a section may come in parts, and the first setting of a key counts. -/
def Document.get (doc : Document) (section_ : Option (List UInt8)) (key : List UInt8)
    : Option (List UInt8) :=
  match section_ with
  | none => (doc.top.filterMap Item.pair?).lookup key
  | some section_ =>
      (((doc.blocks.filter fun block => decide (block.name = section_)).flatMap
        Block.items).filterMap Item.pair?).lookup key

-----------------------------------------------------------------------------------------
-- A line of the document
-----------------------------------------------------------------------------------------

variable {s front back key cur : List UInt8} {section_ : Option (List UInt8)}

theorem head?_visible (tight : Tight s) {b : UInt8} (first : s.head? = some b)
    : ¬isBlank b = true := by
  have none := tight.1
  rw [first] at none
  exact Bool.eq_false_iff.mp none

theorem getLast?_visible (tight : Tight s) {b : UInt8} (last : s.getLast? = some b)
    : ¬isBlank b = true := by
  have none := tight.2
  rw [last] at none
  exact Bool.eq_false_iff.mp none

theorem dropWhile_blank (blank : Blank front) (t : List UInt8)
    : (front ++ t).dropWhile isBlank = t.dropWhile isBlank :=
  List.dropWhile_append_of_pos (List.all_eq_true.mp blank)

theorem rdropWhile_blank (blank : Blank back) (t : List UInt8)
    : (t ++ back).rdropWhile isBlank = t.rdropWhile isBlank := by
  have blank' : Blank back.reverse := (List.all_reverse ..).trans blank
  rw [List.rdropWhile, List.rdropWhile, List.reverse_append, dropWhile_blank blank']

/-- Only what stands around it is trimmed. -/
theorem trim_framed (leads : Blank front) (trails : Blank back) (tight : Tight s)
    : trim (front ++ s ++ back) = s := by
  rw [trim, List.append_assoc, dropWhile_blank leads]
  cases s with
  | nil =>
      have none := dropWhile_blank trails []
      rw [List.append_nil] at none
      rw [List.nil_append, none]
      rfl
  | cons b s =>
      rw [List.cons_append, List.dropWhile_cons_of_neg (head?_visible tight rfl),
        ← List.cons_append, rdropWhile_blank trails]
      refine List.rdropWhile_eq_self_iff.mpr fun nonempty => ?_
      exact getLast?_visible tight (List.getLast?_eq_some_getLast nonempty)

/-- A blank starts neither a comment nor a section. -/
theorem blank_start {b : UInt8} (blank : isBlank b = true)
    : isMark b = false ∧ b ≠ chr '[' := by
  have cases_ : b = chr ' ' ∨ b = chr '\t' := of_decide_eq_true blank
  rcases cases_ with rfl | rfl <;> decide

/-- Blanks have no other character among them. -/
theorem not_mem_blank (blank : Blank s) {c : UInt8} (other : isBlank c = false) : c ∉ s :=
  fun member => Bool.eq_false_iff.mp other (List.all_eq_true.mp blank c member)

theorem inline_blank (blank : Blank s) : Inline s :=
  ⟨not_mem_blank blank (by decide), not_mem_blank blank (by decide),
    not_mem_blank blank (by decide)⟩

theorem Inline.append (plain : Inline front) (plain' : Inline back) : Inline (front ++ back) := by
  obtain ⟨newline, cr, zero⟩ := plain
  obtain ⟨newline', cr', zero'⟩ := plain'
  refine ⟨?_, ?_, ?_⟩ <;>
    · rw [List.mem_append, not_or]
      constructor <;> assumption

/-- An assignment, when the line starts as no other does. -/
theorem entry_pair {b : UInt8} {front' : List UInt8} (starts : front = b :: front')
    (absent : chr '=' ∉ front) (unmarked : isMark b = false) (open_ : b ≠ chr '[')
    : entry (front ++ chr '=' :: back) = .pair (trim front) (trim back) := by
  have member : chr '=' ∈ front ++ chr '=' :: back :=
    List.mem_append_right front List.mem_cons_self
  have split : before (chr '=') (front ++ chr '=' :: back) = front := before_append absent
  have rest : (front ++ chr '=' :: back).drop (front.length + 1) = back := by
    rw [← List.drop_drop, List.drop_left]
    rfl
  have unmarked' : ¬(b = chr ';' ∨ b = chr '#') := of_decide_eq_false unmarked
  subst starts
  rw [List.cons_append] at member split rest ⊢
  rw [entry, if_neg unmarked', if_neg fun header => open_ header.1, if_pos member, split, rest]

theorem Keylike.head_cases (keylike : Keylike key) {b : UInt8} (first : key.head? = some b)
    : isMark b = false ∧ b ≠ chr '[' := by
  obtain ⟨_, _, _, _, start⟩ := keylike
  rw [first] at start
  obtain ⟨unmarked, open_⟩ := Bool.or_eq_false_iff.mp start
  exact ⟨unmarked, ne_of_beq_false open_⟩

theorem Setting.entry_line (setting : Setting)
    : entry setting.line = .pair setting.key setting.value := by
  obtain ⟨nonempty, tight, _, apart, _⟩ := setting.keylike
  obtain ⟨leads, gaps, gaps', trails⟩ := setting.blank
  have absent : chr '=' ∉ setting.lead ++ setting.key ++ setting.gap := by
    rw [List.mem_append, List.mem_append, not_or, not_or]
    exact ⟨⟨not_mem_blank leads (by decide), apart⟩, not_mem_blank gaps (by decide)⟩
  have pair (b : UInt8) (front' : List UInt8)
      (starts : setting.lead ++ setting.key ++ setting.gap = b :: front')
      (unmarked : isMark b = false) (open_ : b ≠ chr '[')
      : entry setting.line = .pair setting.key setting.value := by
    rw [Setting.line, entry_pair starts absent unmarked open_, trim_framed leads gaps tight,
      trim_framed gaps' trails setting.tight]
  cases first : setting.lead with
  | nil =>
      obtain ⟨b, key', named⟩ := List.exists_cons_of_ne_nil nonempty
      obtain ⟨unmarked, open_⟩ := setting.keylike.head_cases (by rw [named]; rfl)
      exact pair b (key' ++ setting.gap) (by rw [first, named]; rfl) unmarked open_
  | cons b lead' =>
      have blank : isBlank b = true :=
        List.all_eq_true.mp leads b (by rw [first]; exact List.mem_cons_self)
      obtain ⟨unmarked, open_⟩ := blank_start blank
      exact pair b (lead' ++ setting.key ++ setting.gap) (by rw [first]; rfl) unmarked open_

theorem Remark.entry_line (remark : Remark) : entry remark.line = .skip := by
  cases first : remark.line with
  | nil => rfl
  | cons b t =>
      have mute := remark.mute
      rw [first] at mute
      rcases mute with marked | blank
      · rw [entry, if_pos (of_decide_eq_true marked)]
      · have here : isBlank b = true := List.all_eq_true.mp blank b List.mem_cons_self
        have absent : chr '=' ∉ b :: t := not_mem_blank blank (by decide)
        obtain ⟨unmarked, open_⟩ := blank_start here
        rw [entry, if_neg (of_decide_eq_false unmarked), if_neg fun header => open_ header.1,
          if_neg absent]

theorem Setting.outcome_line (setting : Setting)
    : outcome section_ key cur setting.line
      = if section_.any (fun section_ => decide (section_ ≠ cur)) = true then
          .next cur
        else if setting.key ≠ key then
          .next cur
        else
          .found setting.value := by
  rw [outcome, setting.entry_line]

theorem Remark.outcome_line (remark : Remark)
    : outcome section_ key cur remark.line = .next cur := by
  rw [outcome, remark.entry_line]

theorem Block.entry_header (block : Block) : entry block.header = .section_ block.name := by
  have last : (chr '[' :: (block.name ++ [chr ']'])).getLast? = some (chr ']') := by
    rw [← List.cons_append, List.getLast?_append]
    rfl
  rw [Block.header, entry, if_neg (by decide), if_pos ⟨rfl, last⟩, List.length_append,
    List.length_singleton, Nat.add_sub_cancel, List.take_left]

theorem Item.plain_line (item : Item) : Inline item.line := by
  cases item with
  | note remark => exact remark.plain
  | assign setting =>
      obtain ⟨_, _, plain, _, _⟩ := setting.keylike
      obtain ⟨leads, gaps, gaps', trails⟩ := setting.blank
      have front := ((inline_blank leads).append plain).append (inline_blank gaps)
      have back := ((inline_blank gaps').append setting.plain).append (inline_blank trails)
      have sign : Inline [chr '='] := by decide
      exact front.append (sign.append back)

theorem Block.plain_header (block : Block) : Inline block.header := by
  have opening : Inline [chr '['] := by decide
  have closing : Inline [chr ']'] := by decide
  exact opening.append (block.plain.append closing)

theorem Document.plain_lines (doc : Document) : ∀ l ∈ doc.lines, Inline l := by
  intro l member
  rcases List.mem_append.mp member with top | inside
  · obtain ⟨item, _, rfl⟩ := List.mem_map.mp top
    exact item.plain_line
  · obtain ⟨block, _, within⟩ := List.mem_flatMap.mp inside
    rcases List.mem_cons.mp within with rfl | within
    · exact block.plain_header
    · obtain ⟨item, _, rfl⟩ := List.mem_map.mp within
      exact item.plain_line

theorem Item.short_line (item : Item) : Short item.line := by
  intro name named
  cases item with
  | note remark => cases remark.entry_line.symm.trans named
  | assign setting => cases setting.entry_line.symm.trans named

theorem Document.short_lines (doc : Document) : ∀ l ∈ doc.lines, Short l := by
  intro l member
  rcases List.mem_append.mp member with top | inside
  · obtain ⟨item, _, rfl⟩ := List.mem_map.mp top
    exact item.short_line
  · obtain ⟨block, _, within⟩ := List.mem_flatMap.mp inside
    rcases List.mem_cons.mp within with rfl | within
    · intro name named
      cases block.entry_header.symm.trans named
      exact block.short
    · obtain ⟨item, _, rfl⟩ := List.mem_map.mp within
      exact item.short_line

-----------------------------------------------------------------------------------------
-- The text of the document
-----------------------------------------------------------------------------------------

/-- Lines that are written out come apart again, with an empty one behind. -/
theorem splitOn_lines {lines : List (List UInt8)} (apart : ∀ l ∈ lines, chr '\n' ∉ l)
    : (lines.flatMap newline).splitOn (chr '\n') = lines ++ [[]] := by
  induction lines with
  | nil => exact List.splitOn_nil _
  | cons l lines ih =>
      obtain ⟨here, later⟩ := List.forall_mem_cons.mp apart
      have first
          : (l :: lines).flatMap newline = l ++ chr '\n' :: lines.flatMap newline := by
        simp [newline]
      rcases text_cases (l ++ chr '\n' :: lines.flatMap newline) with
        ⟨absent, _⟩ | ⟨l', rest, same, apart', split⟩
      · exact absurd (List.mem_append_right l List.mem_cons_self) absent
      · have front := congrArg (before (chr '\n')) same
        rw [before_append here, before_append apart'] at front
        subst front
        obtain rfl := (List.cons.inj (List.append_cancel_left same)).2
        rw [first, split, ih later, List.cons_append]

theorem zero_not_mem_render (doc : Document) : 0 ∉ doc.render := by
  intro member
  obtain ⟨l, inside, within⟩ := List.mem_flatMap.mp member
  rcases List.mem_append.mp within with here | last
  · exact (doc.plain_lines l inside).2.2 here
  · cases List.mem_singleton.mp last

theorem splitOn_render (doc : Document)
    : doc.render.splitOn (chr '\n') = doc.lines ++ [[]] :=
  splitOn_lines fun l member => (doc.plain_lines l member).1

/-- Without a CR at its end, a line is left as it is. -/
theorem chomp_inline (plain : Inline s) : chomp s = s :=
  if_neg fun last => plain.2.1 (List.mem_of_getLast? last)

/-- Lines that fit, are not empty and have no CR are read alike by both lookups. -/
theorem Readable.of_forall {lines : List (List UInt8)}
    (fits : ∀ l ∈ lines, Fits l ∧ l ≠ [] ∧ Inline l)
    : Readable section_ key cur (lines ++ [[]]) := by
  induction lines generalizing cur with
  | nil => exact ⟨Nat.zero_le _, nofun⟩
  | cons l lines ih =>
      obtain ⟨⟨here, nonempty, plain⟩, later⟩ := List.forall_mem_cons.mp fits
      have same : chomp l = l := chomp_inline plain
      have alike : Alike section_ key cur l := by
        refine ⟨?_, ?_, ?_⟩ <;> rw [same]
        · exact nonempty
        · exact here.2
      obtain ⟨next, rest, more⟩ := List.exists_cons_of_ne_nil (l := lines ++ [[]]) (by simp)
      rw [List.cons_append, more]
      refine ⟨here, alike, ?_⟩
      split
      · rw [← more]
        exact ih later
      · trivial

-----------------------------------------------------------------------------------------
-- Looking up
-----------------------------------------------------------------------------------------

/-- The lines of a section are searched when it is the one asked for, up to the key. -/
theorem search_items (items : List Item) (rest : List (List UInt8))
    : search section_ key cur (items.map Item.line ++ rest)
      = if section_.any (fun section_ => decide (section_ ≠ cur)) = true then
          search section_ key cur rest
        else
          ((items.filterMap Item.pair?).lookup key).or (search section_ key cur rest) := by
  induction items with
  | nil => simp
  | cons item items ih =>
      rw [List.map_cons, List.cons_append, search]
      cases item with
      | note remark =>
          rw [Item.line, remark.outcome_line, List.filterMap_cons_none rfl]
          exact ih
      | assign setting =>
          have next : (Item.assign setting).pair? = some (setting.key, setting.value) := rfl
          rw [Item.line, setting.outcome_line, List.filterMap_cons_some next]
          split_ifs with elsewhere other
          · rw [if_pos elsewhere] at ih
            exact ih
          · rw [if_neg elsewhere] at ih
            rw [List.lookup_cons, beq_false_of_ne (Ne.symm other)]
            exact ih
          · obtain rfl := Decidable.not_not.mp other
            rw [List.lookup_cons_self]
            rfl

/-- The search in the sections, from any of them on. -/
theorem search_blocks (name : List UInt8) (blocks : List Block)
    : search (some name) key cur (blocks.flatMap Block.lines ++ [[]])
      = (((blocks.filter fun block => decide (block.name = name)).flatMap
          Block.items).filterMap Item.pair?).lookup key := by
  induction blocks generalizing cur with
  | nil => rfl
  | cons block blocks ih =>
      have header (rest : List (List UInt8))
          : search (some name) key cur (block.header :: rest)
            = search (some name) key block.name rest := by
        rw [search, outcome, block.entry_header]
        rfl
      rw [List.flatMap_cons, Block.lines, List.cons_append, List.cons_append, header,
        List.append_assoc, search_items, ih]
      rcases eq_or_ne block.name name with rfl | other
      · rw [if_neg (by simp), List.filter_cons_of_pos (by simp), List.flatMap_cons,
          List.filterMap_append, List.lookup_append]
      · rw [if_pos (by simpa using other.symm), List.filter_cons_of_neg (by simpa using other)]

/-- The search of the document's lines finds what the document says. -/
theorem search_document (doc : Document) (given : ∀ name ∈ section_, name ≠ [])
    : search section_ key [] (doc.lines ++ [[]]) = doc.get section_ key := by
  rw [Document.lines, List.append_assoc, search_items]
  cases section_ with
  | none =>
      have sections : search none key [] (doc.blocks.flatMap Block.lines ++ [[]]) = none := by
        cases doc.blocks with
        | nil => rfl
        | cons block blocks =>
            rw [List.flatMap_cons, Block.lines, List.cons_append, List.cons_append, search,
              outcome, block.entry_header]
            rfl
      rw [sections, Option.or_none]
      rfl
  | some name =>
      rw [if_pos (by simpa using given name rfl), search_blocks]
      rfl

section

variable {ν : Type*} {fopen : ν → Option (List UInt8)} {fn : ν} {line line' cfgTxt : Buffer}

/-- A document whose lines fit is looked up as it says: in its file, and in memory too when it
has no empty line.
-/
theorem document_read (doc : Document) (value : Mem) (file : fopen fn = some doc.render)
    (size : line.length = 256) (size' : line'.length = 256) (memory : Holds cfgTxt 0 doc.render)
    (fits : ∀ l ∈ doc.lines, l.length ≤ 255)
    (sections : ∀ name ∈ section_, 1 ≤ name.length ∧ name.length ≤ 64)
    (keys : 1 ≤ key.length ∧ key.length ≤ 64)
    : clIniGet fopen line (some fn) section_ (some key) (some value)
        = some ((answer value (doc.get section_ key)).map id some)
      ∧ ([] ∉ doc.lines
        → doc.render.length ≤ 1048576
        → clIniGet2 line' (some cfgTxt) section_ (some key) (some value)
          = some ((answer value (doc.get section_ key)).map id some)) := by
  have within : ¬lensExceed section_ key = true :=
    Bool.eq_false_iff.mp (lensExceed_eq_false sections keys)
  have given (name : List UInt8) (asked : name ∈ section_) : name ≠ [] :=
    List.ne_nil_of_length_pos (sections name asked).1
  have said : search section_ key [] (doc.lines ++ [[]]) = doc.get section_ key :=
    search_document doc given
  have all (l : List UInt8) (member : l ∈ doc.lines ++ [[]]) : Fits l := by
    rcases List.mem_append.mp member with inside | last
    · exact ⟨fits l inside, doc.short_lines l inside⟩
    · rw [List.mem_singleton.mp last]
      exact ⟨Nat.zero_le _, nofun⟩
  constructor
  · have fitting : Fitting section_ key [] (doc.render.splitOn (chr '\n')) :=
      Fitting.of_forall (splitOn_render doc ▸ all)
    have got := clIniGet_eq value file (zero_not_mem_render doc) size fitting
    rw [got, if_neg within, splitOn_render, said]
  · intro filled short
    have readable : Readable section_ key [] (doc.lines ++ [[]]) := by
      refine Readable.of_forall fun l member => ⟨all l (List.mem_append_left _ member), ?_,
        doc.plain_lines l member⟩
      rintro rfl
      exact filled member
    obtain ⟨fitting2, same⟩ := readable.search2_eq
    rcases eq_or_ne doc.render [] with empty | nonempty
    · have lines : doc.lines = [] := by
        have split := splitOn_render doc
        rw [empty, List.splitOn_nil] at split
        exact List.append_left_injective [[]] split.symm
      have nothing : doc.get section_ key = none := by
        rw [← said, lines]
        rfl
      rw [empty] at memory
      rw [nothing, clIniGet2, if_neg within, memory.strlen]
      rfl
    · rw [clIniGet2_eq value memory nonempty short size' (splitOn_render doc ▸ fitting2),
        if_neg within, splitOn_render, same, said]

end

/-- `"k = v"` with a tab, as a setting. -/
def assignment (key value : UInt8) (keylike : Keylike [key]) (visible : isBlank value = false)
    (plain : Inline [value])
    : Setting where
  key := [key]
  value := [value]
  lead := []
  gap := [chr ' ']
  gap' := [chr '\t', chr ' ']
  trail := []
  keylike := keylike
  tight := ⟨visible, visible⟩
  plain := plain
  blank := by decide

/-- A remark in front, and a section in two parts around another one. -/
def parted : Document where
  top := [.note ⟨[chr ';', chr 'x', chr '='], by decide, by decide⟩]
  blocks := [
    ⟨[chr 'a'], [.assign (assignment (chr 'j') (chr '1') (by decide) (by decide) (by decide))],
      by decide, by decide⟩,
    ⟨[chr 'b'], [.assign (assignment (chr 'k') (chr '2') (by decide) (by decide) (by decide))],
      by decide, by decide⟩,
    ⟨[chr 'a'], [.assign (assignment (chr 'k') (chr '3') (by decide) (by decide) (by decide))],
      by decide, by decide⟩]

/-- In both lookups, the key of the section is found in its second part. -/
theorem document_read_parted
    : clIniGet (fun _ : Unit => some parted.render) (List.replicate 256 2) (some ())
          (some [chr 'a']) (some [chr 'k']) (some fun _ => 0)
        = some (.succ, some (store (fun _ => 0) [chr '3']))
      ∧ clIniGet2 (List.replicate 256 1) (some (parted.render ++ [0])) (some [chr 'a'])
          (some [chr 'k']) (some fun _ => 0)
        = some (.succ, some (store (fun _ => 0) [chr '3'])) :=
  And.imp id (fun found => found (by decide) (by decide)) <|
    document_read parted (fun _ => 0) rfl List.length_replicate List.length_replicate
      ⟨by decide, [], rfl⟩ (by decide) (by decide) (by decide)

end Libccll.Ini
