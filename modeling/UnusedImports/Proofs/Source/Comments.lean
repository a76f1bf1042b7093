import UnusedImports.Proofs.Source.Grammar

/-!
# Braces with comments and quoted names

Between braces any mix of white space and closed block comments may stand around the names, and a
name may be quoted, so that a comma does not always separate items. `Mode` is what a reader of such
a text knows about the place it has reached, and `scan` reads a text. The texts of items are
sheltered (`Item.sheltered`): a reader that starts in code ends in code, and at the commas that such
a text has it is not in code. So a text between braces that ends inside a comment or a quoted name
is no text of items (`Braces.scan_inner`).

Whether comments nest is a parameter of the reader.
-/

set_option autoImplicit false

namespace UnusedImports.Commented

open Grammar (isPunctuation)

/-! ## Reading a text -/

/-- Where a reader is: in code, or in code behind a slash, in a comment, behind a star or a slash
in a comment, or in a quoted name. The depth counts the comments around the comment. -/
inductive Mode where
  | code
  | slash
  | comment (depth : Nat)
  | star (depth : Nat)
  | opening (depth : Nat)
  | quoted
  deriving DecidableEq, Repr

/-- What a reader is in behind a star and a slash. -/
def Mode.leave : Nat → Mode
  | 0 => .code
  | depth + 1 => .comment depth

/-- A reader reads a character. -/
def Mode.step (nests : Bool) : Mode → Char → Mode
  | .code, c => if c = '/' then .slash else if c = '\x60' then .quoted else .code
  | .slash, c =>
    if c = '*' then .comment 0
    else if c = '/' then .slash
    else if c = '\x60' then .quoted
    else .code
  | .comment depth, c =>
    if c = '*' then .star depth else if c = '/' then .opening depth else .comment depth
  | .star depth, c =>
    if c = '/' then .leave depth else if c = '*' then .star depth else .comment depth
  | .opening depth, c =>
    if c = '*' then (if nests then .comment (depth + 1) else .star depth)
    else if c = '/' then .opening depth
    else .comment depth
  | .quoted, c => if c = '\x60' then .code else .quoted

/-- Where a reader is behind a text. -/
def scan (nests : Bool) (m : Mode) (t : Text) : Mode :=
  t.foldl (Mode.step nests) m

/-- The last character of the text brings a reader back to code, and none in front of it does. -/
def closes (nests : Bool) : Mode → Text → Bool
  | _, [] => false
  | m, c :: rest =>
    if m.step nests c = .code then rest.isEmpty else closes nests (m.step nests c) rest

variable {nests : Bool} {m : Mode} {a b t : Text} {c : Char}

@[simp] theorem scan_nil : scan nests m [] = m := rfl

@[simp] theorem scan_cons : scan nests m (c :: t) = scan nests (m.step nests c) t := rfl

@[simp] theorem scan_append : scan nests m (a ++ b) = scan nests (scan nests m a) b :=
  List.foldl_append

theorem scan_of_closes (h : closes nests m t = true) : scan nests m t = .code := by
  induction t generalizing m with
  | nil => exact absurd h Bool.false_ne_true
  | cons c rest ih =>
    rw [closes] at h
    split at h
    · rename_i hcode
      rw [scan_cons, hcode, List.isEmpty_iff.1 h, scan_nil]
    · exact ih h

/-- A reader that is not in code gets there at the end of a closing text only. -/
theorem scan_ne_code_of_closes (hm : m ≠ .code) (h : closes nests m (a ++ c :: b) = true) :
    scan nests m a ≠ .code := by
  induction a generalizing m with
  | nil => exact hm
  | cons d a ih =>
    rw [List.cons_append, closes] at h
    split at h
    · simp at h
    · rename_i hstep
      exact ih hstep h

/-! ## Sheltered texts -/

/-- A reader that starts in code ends in code, and is not in code at any comma. -/
structure Sheltered (nests : Bool) (t : Text) : Prop where
  scan_eq : scan nests .code t = .code
  scan_comma : ∀ a b, t = a ++ ',' :: b → scan nests .code a ≠ .code

namespace Sheltered

theorem nil : Sheltered nests [] :=
  ⟨rfl, fun a b h => by simp at h⟩

theorem append (ha : Sheltered nests a) (hb : Sheltered nests b) : Sheltered nests (a ++ b) := by
  constructor
  · rw [scan_append, ha.scan_eq, hb.scan_eq]
  · intro front back h
    rcases List.append_eq_append_iff.1 h with ⟨mid, rfl, hmid⟩ | ⟨mid, hmid, hback⟩
    · -- the comma stands in the second text
      rw [scan_append, ha.scan_eq]
      exact hb.scan_comma mid back hmid
    · cases mid with
      | nil =>
        rw [List.append_nil] at hmid
        rw [← hmid, ha.scan_eq]
        exact absurd rfl (hb.scan_comma [] back hback.symm)
      | cons d mid =>
        obtain ⟨rfl, -⟩ := List.cons_eq_cons.1 hback
        exact ha.scan_comma front mid hmid

/-- A text without commas that leaves a reader in code all along is sheltered. -/
theorem of_plain (h : ∀ c ∈ t, c ≠ '/' ∧ c ≠ '\x60' ∧ c ≠ ',') : Sheltered nests t := by
  induction t with
  | nil => exact nil
  | cons c rest ih =>
    obtain ⟨hslash, hquote, hcomma⟩ := h c List.mem_cons_self
    have hrest := ih fun d hd => h d (List.mem_cons_of_mem c hd)
    have hstep : Mode.step nests .code c = .code := by
      simp [Mode.step, hslash, hquote]
    constructor
    · rw [scan_cons, hstep, hrest.scan_eq]
    · intro a b hsplit
      cases a with
      | nil => exact absurd (List.cons_eq_cons.1 hsplit).1 hcomma
      | cons d a =>
        obtain ⟨rfl, htail⟩ := List.cons_eq_cons.1 hsplit
        rw [scan_cons, hstep]
        exact hrest.scan_comma a b htail

/-- A closed comment is sheltered. -/
theorem comment (h : closes nests (.comment 0) t = true) : Sheltered nests ('/' :: '*' :: t) := by
  constructor
  · exact scan_of_closes h
  · intro a b hsplit
    rcases a with _ | ⟨d, _ | ⟨e, a⟩⟩
    · exact absurd (List.cons_eq_cons.1 hsplit).1 (by decide)
    · simp at hsplit
    · -- the comma stands behind the opening of the comment
      simp only [List.cons_append, List.cons.injEq] at hsplit
      obtain ⟨rfl, rfl, rfl⟩ := hsplit
      change scan nests (.comment 0) a ≠ .code
      exact scan_ne_code_of_closes (by decide) h

/-- A quoted text is sheltered. -/
theorem quoted (h : ∀ c ∈ t, c ≠ '\x60') : Sheltered nests ('\x60' :: t ++ ['\x60']) := by
  have hscan : ∀ s : Text, (∀ c ∈ s, c ≠ '\x60') → scan nests .quoted s = .quoted := by
    intro s hs
    induction s with
    | nil => rfl
    | cons c rest ih =>
      rw [scan_cons, Mode.step, if_neg (hs c List.mem_cons_self)]
      exact ih fun d hd => hs d (List.mem_cons_of_mem c hd)
  constructor
  · rw [scan_append]
    change scan nests (scan nests .quoted t) _ = _
    rw [hscan t h]
    rfl
  · intro a b hsplit
    cases a with
    | nil => exact absurd (List.cons_eq_cons.1 hsplit).1 (by decide)
    | cons d a =>
      obtain ⟨rfl, htail⟩ := List.cons_eq_cons.1 hsplit
      -- what stands in front of the comma belongs to the quoted text
      have hfront : ∀ c ∈ a, c ≠ '\x60' := by
        intro c hc
        rcases List.append_eq_append_iff.1 htail with ⟨mid, rfl, hmid⟩ | ⟨mid, rfl, -⟩
        · rcases List.mem_append.1 hc with hc | hc
          · exact h c hc
          · cases mid with
            | nil => exact absurd hc List.not_mem_nil
            | cons e mid => simp at hmid
        · exact h c (List.mem_append_left mid hc)
      change scan nests .quoted a ≠ .code
      rw [hscan a hfront]
      decide

end Sheltered

/-! ## Trivia and names -/

/-- A mix of white space and closed block comments. -/
inductive IsTrivia (nests : Bool) : Text → Prop where
  | nil : IsTrivia nests []
  | white {c : Char} {t : Text} (hc : Text.isSolid c = false) (ht : IsTrivia nests t) :
    IsTrivia nests (c :: t)
  | comment {body t : Text} (hbody : closes nests (.comment 0) body = true)
    (ht : IsTrivia nests t) : IsTrivia nests ('/' :: '*' :: body ++ t)

/-- The characters of a name that is not quoted. -/
def isWord (c : Char) : Bool :=
  Text.isSolid c && !isPunctuation c && c ≠ '/' && c ≠ '\x60'

/-- A name is a word, or any text in quotes. -/
inductive IsName : Text → Prop where
  | word {t : Text} (hne : t ≠ []) (h : ∀ c ∈ t, isWord c = true) : IsName t
  | quoted {t : Text} (h : ∀ c ∈ t, c ≠ '\x60') : IsName ('\x60' :: t ++ ['\x60'])

abbrev Trivia (nests : Bool) := { t : Text // IsTrivia nests t }

abbrev Name := { t : Text // IsName t }

theorem isWord_iff :
    isWord c = true ↔ Text.isSolid c = true ∧ isPunctuation c = false ∧ c ≠ '/' ∧ c ≠ '\x60' := by
  simp [isWord, and_assoc]

theorem IsTrivia.sheltered (h : IsTrivia nests t) : Sheltered nests t := by
  induction h with
  | nil => exact .nil
  | @white c t hc _ ih =>
    refine Sheltered.append (a := [c]) (.of_plain fun d hd => ?_) ih
    rw [List.mem_singleton] at hd
    subst hd
    refine ⟨?_, ?_, ?_⟩ <;>
      · rintro rfl
        exact absurd hc (by decide)
  | comment hbody _ ih => exact (Sheltered.comment hbody).append ih

theorem IsName.sheltered (h : IsName t) : Sheltered nests t := by
  cases h with
  | word _ h =>
    refine .of_plain fun c hc => ?_
    obtain ⟨-, hpunctuation, hslash, hquote⟩ := isWord_iff.1 (h c hc)
    refine ⟨hslash, hquote, ?_⟩
    rintro rfl
    exact absurd hpunctuation (by decide)
  | quoted h => exact .quoted h

/-- A name starts with a solid character that is no comma. -/
theorem IsName.exists_cons (h : IsName t) :
    ∃ c rest, t = c :: rest ∧ Text.isSolid c = true ∧ c ≠ ',' := by
  cases h with
  | word hne h =>
    obtain ⟨c, rest, rfl⟩ := List.exists_cons_of_ne_nil hne
    obtain ⟨hsolid, hpunctuation, -, -⟩ := isWord_iff.1 (h c List.mem_cons_self)
    refine ⟨c, rest, rfl, hsolid, ?_⟩
    rintro rfl
    exact absurd hpunctuation (by decide)
  | quoted h => exact ⟨_, _, rfl, by decide, by decide⟩

/-! ## Items between braces -/

/-- The part of an item behind its name: an arrow between trivia, and the new name. -/
structure Rename (nests : Bool) where
  before : Trivia nests
  after : Trivia nests
  name : Name

/-- An item between braces, with the trivia behind it. -/
structure Item (nests : Bool) where
  name : Name
  rename : Option (Rename nests)
  trail : Trivia nests

/-- Items between braces; each gap is a comma and the trivia behind it. -/
structure Braces (nests : Bool) where
  lead : Trivia nests
  items : Row (Trivia nests) (Item nests)

def Rename.text (r : Rename nests) : Text :=
  r.before.val ++ "=>".toList ++ r.after.val ++ r.name.val

def Item.text (i : Item nests) : Text :=
  i.name.val ++ (match i.rename with | some r => r.text | none => []) ++ i.trail.val

def itemGap (lead : Trivia nests) : Text :=
  ',' :: lead.val

/-- The text between the braces. -/
def Braces.inner (d : Braces nests) : Text :=
  d.lead.val ++ d.items.text itemGap Item.text

def Braces.text (d : Braces nests) : Text :=
  '\x7b' :: d.inner ++ ['\x7d']

theorem Rename.sheltered (r : Rename nests) : Sheltered nests r.text :=
  ((r.before.property.sheltered.append (.of_plain (by simp))).append
    r.after.property.sheltered).append r.name.property.sheltered

theorem Item.sheltered (i : Item nests) : Sheltered nests i.text := by
  refine (i.name.property.sheltered.append ?_).append i.trail.property.sheltered
  cases i.rename with
  | none => exact .nil
  | some r => exact r.sheltered

/-- An item starts with a solid character that is no comma. -/
theorem Item.exists_cons (i : Item nests) :
    ∃ c rest, i.text = c :: rest ∧ Text.isSolid c = true ∧ c ≠ ',' := by
  obtain ⟨c, rest, hname, hsolid, hcomma⟩ := i.name.property.exists_cons
  rw [Item.text, hname, List.append_assoc, List.cons_append]
  exact ⟨c, _, rfl, hsolid, hcomma⟩

/-- A comma between items does not bring a reader out of code. -/
theorem scan_itemGap (lead : Trivia nests) : scan nests .code (itemGap lead) = .code :=
  lead.property.sheltered.scan_eq

/-- A row of items leaves a reader in code. -/
theorem scan_row (r : Row (Trivia nests) (Item nests)) :
    scan nests .code (r.text itemGap Item.text) = .code := by
  obtain ⟨i, rest⟩ := r
  induction rest generalizing i with
  | nil => rw [Row.text_nil, i.sheltered.scan_eq]
  | cons q rest ih =>
    obtain ⟨g, j⟩ := q
    rw [Row.text_cons, scan_append, scan_append, i.sheltered.scan_eq, scan_itemGap, ih]

/-- Between braces all comments and quoted names are closed. -/
theorem Braces.scan_inner (d : Braces nests) : scan nests .code d.inner = .code := by
  rw [inner, scan_append, d.lead.property.sheltered.scan_eq, scan_row]

end UnusedImports.Commented
