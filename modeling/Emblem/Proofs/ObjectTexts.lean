/-
Module: Emblem.Proofs.ObjectTexts
Purpose: Objects as they are written, and what records make of them. Members whose values can be read are
  taken one after another, each name once; a name that is unknown or was given before is refused, and
  so is a value that its reader refuses, whatever follows.
Main exports: Written, ObjectStart, Fills, ObjectStart.reads_record, ObjectStart.refuses_name,
  ObjectStart.refuses_value
-/
import Emblem.Proofs.StableReaders

namespace Emblem.Json

open Reader (Takes Reads Refuses)

variable {σ : Type}

/-! ### Names -/

/-- A text is a quote and what a string is read from, with space before and after. -/
theorem exists_contents_of_readText {octets : List UInt8} {name : String}
    (document : readText.document octets = .ok name) : ∃ space body, Blank space ∧
      octets = space ++ octet '"' :: body ∧ ∃ space', Blank space' ∧
        ∀ tail, Closes tail → readString.Reads (body ++ tail) name (space' ++ tail) := by
  have taken : Takes (do let a ← readText; readEnd; return a) (.start octets) name
      (Reader.outcome (do let a ← readText; readEnd; return a) (.start octets)).2 :=
    Prod.ext document rfl
  obtain ⟨name', m, first, second⟩ := takes_bind_iff.1 taken
  obtain ⟨_, m', ended, last⟩ := takes_bind_iff.1 second
  obtain ⟨rfl, _⟩ := takes_pure_iff.1 last
  obtain ⟨b, q, looked, text⟩ := takes_bind_iff.1 first
  obtain ⟨space, body, blank, split, there⟩ := exists_space_of_takes_peekValue looked
  have contents := takes_settle_iff.1 text
  split at contents
  case isFalse => exact absurd contents (never_wrongKind _ _ _ _)
  case isTrue quote =>
      subst quote
      obtain ⟨_, q', discarded, read⟩ := takes_bind_iff.1 contents
      have left : q'.rest = body := by
        obtain ⟨q'', last, taken'⟩ := reads_discard _ _ q there
        unfold Takes at discarded taken'
        rw [discarded] at taken'
        cases taken'
        exact last
      have stable := (readString_stable _ _ _ trivial read).2.2
      rw [left] at stable
      exact ⟨space, body, blank, split, m.rest, blank_of_takes_readEnd ended, stable⟩

section NextName

variable {space space' rest : List UInt8} (blank : Blank space)

include blank

/-- The first name of an object. -/
theorem reads_nextName_first :
    (nextName true).Reads (space ++ octet '"' :: rest) true (octet '"' :: rest) :=
  (reads_peekPastSpace blank (by decide)).bind (.pure _ _)

/-- Another name, after a comma. -/
theorem reads_nextName_comma (blank' : Blank space') :
    (nextName false).Reads (space ++ octet ',' :: (space' ++ octet '"' :: rest)) true
      (octet '"' :: rest) := by
  refine (reads_peekPastSpace blank (by decide)).bind ((reads_discard _ _).bind ?_)
  exact (reads_peekPastSpace blank' (by decide)).bind (.pure _ _)

/-- No other name. -/
theorem reads_nextName_end (first : Bool) :
    (nextName first).Reads (space ++ octet '\x7d' :: rest) false (octet '\x7d' :: rest) :=
  (reads_peekPastSpace blank (by decide)).bind (.pure _ _)

theorem reads_closeObject : closeObject.Reads (space ++ octet '\x7d' :: rest) () rest :=
  (reads_peekPastSpace blank (by decide)).bind (reads_discard _ _)

end NextName

/-! ### Members -/

/-- A member of an object as it is written: the octets of its name and those of its value, with the space
around them. -/
structure Written where
  name : List UInt8
  value : List UInt8

def Written.octets (w : Written) : List UInt8 :=
  w.name ++ octet ':' :: w.value

/-- The first member, and each other one after a comma. -/
def writtenMembers : List Written → List UInt8
  | [] => []
  | w :: ws => w.octets ++ ws.flatMap fun w => octet ',' :: w.octets

/-- What stands before another member: a comma, unless there is none yet. -/
def separator (ws : List Written) : List UInt8 :=
  if ws.isEmpty then [] else [octet ',']

/-- A member with a name brings a record from one state to another. -/
structure Fits (members : List (Member σ)) (w : Written) (name : String) (s s' : σ) : Prop where
  named : readText.document w.name = .ok name
  found : ∃ m, members.find? (·.name == name) = some m ∧ (m.read s).document w.value = .ok s'

/-- Members with these names, one after another. -/
inductive Fills (members : List (Member σ)) : List Written → List String → σ → σ → Prop where
  | nil {s : σ} : Fills members [] [] s s
  | cons {w : Written} {name : String} {s s' t : σ} {ws : List Written} {names : List String}
      (fits : Fits members w name s s') (rest : Fills members ws names s' t) :
      Fills members (w :: ws) (name :: names) s t

section MemberSteps

variable {members : List (Member σ)} (kind : RecordKind) {p : Progress σ} {s' : σ}
variable {w : Written} {name : String} {lead tail : List UInt8}

/-- What comes before a name, whatever space it has. -/
structure Leads (first : Bool) (lead : List UInt8) : Prop where
  reads : ∀ space rest, Blank space →
    (nextName first).Reads (lead ++ (space ++ octet '"' :: rest)) true (octet '"' :: rest)

theorem leads_first {space : List UInt8} (blank : Blank space) : Leads true space := by
  refine ⟨fun space' rest blank' => ?_⟩
  rw [← List.append_assoc]
  refine reads_nextName_first fun b member => ?_
  rcases List.mem_append.1 member with here | there
  · exact blank b here
  · exact blank' b there

theorem leads_comma {space : List UInt8} (blank : Blank space) : Leads false (space ++ [octet ',']) := by
  refine ⟨fun space' rest blank' => ?_⟩
  rw [List.append_assoc]
  exact reads_nextName_comma blank blank'

/-- What comes before another member. -/
theorem leads_separator {space : List UInt8} (blank : Blank space) (ws : List Written) :
    Leads ws.isEmpty (space ++ separator ws) := by
  cases ws with
  | nil =>
      have none : space ++ separator [] = space := List.append_nil _
      rw [none]
      exact leads_first blank
  | cons w ws => exact leads_comma blank

/-- Up to its colon, a member is its name. -/
theorem exists_reads_name {first : Bool} {octets : List UInt8} (leads : Leads first lead)
    (named : readText.document octets = .ok name) : ∃ space body, Blank space ∧
      (∀ rest, (nextName first).Reads (lead ++ (octets ++ octet ':' :: rest)) true
        (octet '"' :: (body ++ octet ':' :: rest))) ∧
      ∀ rest, readString.Reads (body ++ octet ':' :: rest) name (space ++ octet ':' :: rest) := by
  obtain ⟨space, body, blank, rfl, space', blank', string⟩ := exists_contents_of_readText named
  refine ⟨space', body, blank', fun rest => ?_, fun rest => string _ (closes_cons (by decide) rest)⟩
  rw [List.append_assoc, List.cons_append]
  exact leads.reads _ _ blank

/-- A member that fits is taken, if its name is new. -/
theorem Fits.reads_memberStep (fits : Fits members w name p.value s') (leads : Leads p.first lead)
    (stable : ∀ m ∈ members, ∀ s, Stable (m.read s)) (fresh : name ∉ p.given) (closes : Closes tail) :
    ∃ space, Blank space ∧ space.length ≤ w.value.length ∧
      (memberStep kind members p).Reads (lead ++ (w.octets ++ tail))
        (.inl ⟨s', name :: p.given, false⟩) (space ++ tail) := by
  obtain ⟨space, body, blank, next, string⟩ := exists_reads_name leads fits.named
  obtain ⟨m, found, document⟩ := fits.found
  obtain ⟨space', blank', shorter, value⟩ :=
    (stable m (List.mem_of_find?_eq_some found) p.value).exists_space document
  refine ⟨space', blank', shorter, ?_⟩
  rw [Written.octets, List.append_assoc, List.cons_append]
  unfold memberStep
  refine (next _).bind ?_
  rw [if_pos rfl]
  refine (reads_discard _ _).bind ((string _).bind ?_)
  rw [found]
  dsimp only
  rw [if_neg (by simpa using fresh)]
  exact (reads_readColon blank).bind ((value tail closes).bind (.pure _ _))

/-- A name that is none of a record's is refused, where no other names are skipped, and one that was given
before is refused. -/
theorem refuses_memberStep_name {kind} {octets : List UInt8} (leads : Leads p.first lead)
    (named : readText.document octets = .ok name)
    (bad : name ∈ p.given ∨ kind = .overriding ∧ name ∉ members.map Member.name)
    (known : ∀ given ∈ p.given, given ∈ members.map Member.name) (rest : List UInt8) :
    (memberStep kind members p).Refuses (lead ++ (octets ++ octet ':' :: rest)) := by
  obtain ⟨space, body, _, next, string⟩ := exists_reads_name leads named
  unfold memberStep
  refine (next _).refuses_bind ?_
  rw [if_pos rfl]
  refine (reads_discard _ _).refuses_bind ((string _).refuses_bind ?_)
  cases found : members.find? (·.name == name) with
  | none =>
      have unknown : name ∉ members.map Member.name := by
        intro member
        obtain ⟨m, inside, same⟩ := List.mem_map.1 member
        have other := List.find?_eq_none.1 found m inside
        simp [same] at other
      rcases bad with given | ⟨rfl, _⟩
      · exact absurd (known name given) unknown
      · exact refuses_failOpen _ _
  | some m =>
      have there : name ∈ members.map Member.name := by
        have same := List.find?_some found
        exact List.mem_map.2 ⟨m, List.mem_of_find?_eq_some found, by simpa using same⟩
      have given : name ∈ p.given := bad.resolve_right fun absent => absent.2 there
      dsimp only
      rw [if_pos (by simpa using given)]
      exact refuses_failOpen _ _

/-- A member whose value is refused is refused. -/
theorem refuses_memberStep_value {kind} {octets rest : List UInt8} {m : Member σ} (leads : Leads p.first lead)
    (named : readText.document octets = .ok name)
    (found : members.find? (·.name == name) = some m) (refuses : (m.read p.value).Refuses rest) :
    (memberStep kind members p).Refuses (lead ++ (octets ++ octet ':' :: rest)) := by
  obtain ⟨space, body, blank, next, string⟩ := exists_reads_name leads named
  unfold memberStep
  refine (next _).refuses_bind ?_
  rw [if_pos rfl]
  refine (reads_discard _ _).refuses_bind ((string _).refuses_bind ?_)
  rw [found]
  dsimp only
  split
  · exact refuses_failOpen _ _
  · exact (reads_readColon blank).refuses_bind refuses.bind

/-- The names that were given are names of the record. -/
theorem Fills.known {ws : List Written} {names : List String} {s t : σ}
    (fills : Fills members ws names s t) : ∀ name ∈ names, name ∈ members.map Member.name := by
  induction fills with
  | nil =>
      intro name member
      cases member
  | cons fits _ ih =>
      intro name member
      rcases List.mem_cons.1 member with rfl | member
      · obtain ⟨m, found, _⟩ := fits.found
        have same := List.find?_some found
        exact List.mem_map.2 ⟨m, List.mem_of_find?_eq_some found, by simpa using same⟩
      · exact ih name member

/-- After the first member, each other one is taken past its comma. -/
theorem Fills.walks_commas {ws : List Written} {names given : List String} {s t : σ} {space : List UInt8}
    (fills : Fills members ws names s t) (stable : ∀ m ∈ members, ∀ s, Stable (m.read s))
    (distinct : (names.reverse ++ given).Nodup) (blank : Blank space) (closes : Closes tail) :
    ∃ space', Blank space' ∧ Walks (memberStep kind members) ⟨s, given, false⟩
      (space ++ (ws.flatMap (fun w => octet ',' :: w.octets) ++ tail))
      ⟨t, names.reverse ++ given, false⟩ (space' ++ tail) := by
  -- On the members that are left; the names given so far are those of the members before them.
  induction fills generalizing given space with
  | nil => exact ⟨space, blank, .refl⟩
  | @cons w name s s' t ws names fits _ ih =>
      rw [List.reverse_cons, List.append_assoc, List.singleton_append] at distinct ⊢
      have fresh : name ∉ given :=
        (List.nodup_cons.1 (List.nodup_append.1 distinct).2.1).1
      have follows : Closes (ws.flatMap (fun w => octet ',' :: w.octets) ++ tail) := by
        cases ws with
        | nil => exact closes
        | cons w ws => exact closes_cons (by decide) _
      obtain ⟨space', blank', shorter, reads⟩ :=
        fits.reads_memberStep kind (p := ⟨s, given, false⟩) (leads_comma blank) stable fresh
          follows
      obtain ⟨space'', blank'', walks⟩ := ih distinct blank'
      have comma : space ++ (((w :: ws).flatMap fun w => octet ',' :: w.octets) ++ tail) =
          space ++ [octet ','] ++ (w.octets ++ ((ws.flatMap fun w => octet ',' :: w.octets) ++ tail)) := by
        simp
      rw [comma]
      refine ⟨space'', blank'', .round reads ?_ walks⟩
      simp only [List.length_append, Written.octets, List.length_cons]
      omega

/-- All members are taken, up to what follows them. -/
theorem Fills.walks {ws : List Written} {names : List String} {s t : σ} {inside : List UInt8}
    (fills : Fills members ws names s t) (stable : ∀ m ∈ members, ∀ s, Stable (m.read s))
    (distinct : names.Nodup) (blank : Blank inside) (closes : ws ≠ [] → Closes tail) :
    ∃ space, Blank space ∧ Walks (memberStep kind members) ⟨s, [], true⟩
      (inside ++ (writtenMembers ws ++ tail)) ⟨t, names.reverse, ws.isEmpty⟩ (space ++ tail) := by
  cases fills with
  | nil => exact ⟨inside, blank, .refl⟩
  | @cons w name _ s' _ ws names fits rest =>
      have last := closes (List.cons_ne_nil _ _)
      have follows : Closes (ws.flatMap (fun w => octet ',' :: w.octets) ++ tail) := by
        cases ws with
        | nil => exact last
        | cons w ws => exact closes_cons (by decide) _
      have order : (names.reverse ++ [name]).Nodup := by
        rw [← List.reverse_cons]
        exact (List.reverse_perm _).nodup_iff.2 distinct
      obtain ⟨space, blank', shorter, reads⟩ :=
        fits.reads_memberStep kind (p := ⟨s, [], true⟩) (leads_first blank) stable
          List.not_mem_nil follows
      obtain ⟨space', blank'', walks⟩ := rest.walks_commas kind stable order blank' last
      rw [List.reverse_cons]
      refine ⟨space', blank'', .round ?_ ?_ walks⟩
      · simpa [writtenMembers] using reads
      · simp only [writtenMembers, List.length_append, Written.octets, List.length_cons]
        omega

end MemberSteps

/-! ### Objects -/

/-- An object as far as it is written. -/
structure ObjectStart where
  before : List UInt8
  inside : List UInt8
  members : List Written
  blank_before : Blank before
  blank_inside : Blank inside

namespace ObjectStart

def octets (o : ObjectStart) : List UInt8 :=
  o.before ++ octet '\x7b' :: (o.inside ++ writtenMembers o.members)

/-- The object ends after its members. -/
def closed (o : ObjectStart) (after : List UInt8) : List UInt8 :=
  o.octets ++ octet '\x7d' :: after

/-- The object goes on with a name, a colon and anything else. -/
def followed (o : ObjectStart) (name rest : List UInt8) : List UInt8 :=
  o.octets ++ (separator o.members ++ (name ++ octet ':' :: rest))

variable {o : ObjectStart} {expected : String} {kind : RecordKind} {members : List (Member σ)} {s t : σ}
variable {names : List String}

/-- Past its opening mark, an object is read or refused as its members are. -/
theorem readRecord_octets (contents : List UInt8) :
    (∀ a left, Reads (enclosed (readMembers kind members s) closeObject)
        (o.inside ++ (writtenMembers o.members ++ contents)) a left →
      (readRecord expected kind members s).Reads (o.octets ++ contents) a left) ∧
    (Refuses (enclosed (readMembers kind members s) closeObject)
        (o.inside ++ (writtenMembers o.members ++ contents)) →
      (readRecord expected kind members s).Refuses (o.octets ++ contents)) := by
  have split : o.octets ++ contents =
      o.before ++ octet '\x7b' :: (o.inside ++ (writtenMembers o.members ++ contents)) := by
    simp [octets]
  have value : Reads peekValue
      (o.before ++ octet '\x7b' :: (o.inside ++ (writtenMembers o.members ++ contents))) (octet '\x7b')
      (octet '\x7b' :: (o.inside ++ (writtenMembers o.members ++ contents))) :=
    reads_peekValue o.blank_before (by decide)
  rw [split]
  constructor
  · intro a left reads
    refine value.bind (Reads.settle ?_)
    rw [if_neg (by decide), if_pos rfl]
    exact (reads_discard _ _).bind reads
  · intro refuses
    refine value.refuses_bind (Refuses.settle ?_)
    rw [if_neg (by decide), if_pos rfl]
    exact (reads_discard _ _).refuses_bind refuses

variable (fills : Fills members o.members names s t) (stable : ∀ m ∈ members, ∀ s, Stable (m.read s))
variable (distinct : names.Nodup)

include fills stable distinct

/-- A record is read from an object whose members fit and have different names; where others are not left
as they were, none must be missing. -/
theorem reads_record (full : kind = .overriding ∨ ∀ m ∈ members, m.name ∈ names) (after : List UInt8) :
    (readRecord expected kind members s).Reads (o.closed after) t after := by
  refine (readRecord_octets _).1 t after (Reads.enclosed ?_ (reads_closeObject blank_nil))
  have closes : Closes (octet '\x7d' :: after) := closes_cons (by decide) _
  obtain ⟨space, blank, walks⟩ := fills.walks kind stable distinct o.blank_inside fun _ => closes
  have last : (memberStep kind members ⟨t, names.reverse, o.members.isEmpty⟩).Reads
      (space ++ octet '\x7d' :: after) (.inr ⟨t, names.reverse, o.members.isEmpty⟩)
      (octet '\x7d' :: after) :=
    (reads_nextName_end blank _).bind (.pure _ _)
  refine (walks.reads last).bind ?_
  split
  case h_1 m missing =>
      rcases full with other | full
      · cases other
      · have given := full m (List.mem_of_find?_eq_some missing)
        have absent := List.find?_some missing
        simp [given] at absent
  case h_2 => exact .pure _ _

/-- What the next member refuses, the object refuses. -/
theorem refuses_record {name rest : List UInt8}
    (refuses : ∀ lead, Leads o.members.isEmpty lead →
      (memberStep kind members ⟨t, names.reverse, o.members.isEmpty⟩).Refuses
        (lead ++ (name ++ octet ':' :: rest))) :
    (readRecord expected kind members s).Refuses (o.followed name rest) := by
  refine (readRecord_octets _).2 (Refuses.enclosed (Refuses.bind ?_))
  have closes : o.members ≠ [] → Closes (separator o.members ++ (name ++ octet ':' :: rest)) := by
    intro some_member
    rw [separator, if_neg (by simpa using some_member)]
    exact closes_cons (by decide) _
  obtain ⟨space, blank, walks⟩ := fills.walks kind stable distinct o.blank_inside closes
  refine walks.refuses ?_
  rw [← List.append_assoc]
  exact refuses _ (leads_separator blank _)

/-- An object is refused for the first name that is unknown or was given before. -/
theorem refuses_name {octets : List UInt8} {name : String} (named : readText.document octets = .ok name)
    (bad : name ∈ names ∨ kind = .overriding ∧ name ∉ members.map Member.name) (rest : List UInt8) :
    (readRecord expected kind members s).Refuses (o.followed octets rest) := by
  refine refuses_record fills stable distinct fun lead leads => ?_
  refine refuses_memberStep_name leads named ?_ ?_ rest
  · simpa using bad
  · intro given member
    exact fills.known given (List.mem_reverse.1 member)

/-- And for the first value that is refused. -/
theorem refuses_value {octets rest : List UInt8} {name : String} {m : Member σ}
    (named : readText.document octets = .ok name) (found : members.find? (·.name == name) = some m)
    (refuses : (m.read t).Refuses rest) :
    (readRecord expected kind members s).Refuses (o.followed octets rest) :=
  refuses_record fills stable distinct fun _ leads => refuses_memberStep_value leads named found refuses

end ObjectStart

end Emblem.Json
