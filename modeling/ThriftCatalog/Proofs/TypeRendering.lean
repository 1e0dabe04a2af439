import ThriftCatalog.Naming
import ThriftCatalog.Proofs.TypeReading

/-! Writing a type that was read, and reading it again. The written form is one spelling of the type, and stays one when
its names are put into a namespace. -/
namespace ThriftCatalog.TypeExpr

variable {s n scope : String} {e : TypeExpr} {gap xs ys : List Char}

/-- A word that is read as a name. -/
structure IsName (n : String) : Prop where
  word : IsWord n.toList
  plain : n ∉ containers
  free : keywords.lookup n = none

/-- The spelling of a tree in its written form, after so much white space. -/
def spell (gap : List Char) : TypeExpr → Spelling
  | base b => .word gap b.word.toList
  | list e => .collection .list gap [] (e.spell []) []
  | set e => .collection .set gap [] (e.spell []) []
  | map k v => .map gap [] (k.spell []) [] (v.spell [' ']) []
  | named n => .word gap n.toList

theorem text_spell (gap : List Char) (e : TypeExpr) : (e.spell gap).text = gap ++ e.render.toList := by
  induction e generalizing gap with
  | base | named => exact Spelling.text_word ..
  | list _ ih | set _ ih =>
    rw [spell, Spelling.text_collection, ih, render]
    simp [Collection.word]
  | map _ _ ihk ihv =>
    rw [spell, Spelling.text_map, ihk, ihv, render]
    simp

theorem isWord_base (b : BaseType) : IsWord b.word.toList := by
  rw [isWord_iff_bool]
  cases b <;> rfl

theorem base_plain (b : BaseType) : b.word ∉ containers := by
  cases b <;> decide

theorem valid_spell (blank : Blank gap) (names : ∀ n ∈ e.names, IsName n) : (e.spell gap).Valid := by
  induction e generalizing gap with
  | base b => exact .word blank (isWord_base b) (by rw [String.ofList_toList]; exact base_plain b)
  | named n =>
    have name := names n (List.mem_singleton.mpr rfl)
    exact .word blank name.word (by rw [String.ofList_toList]; exact name.plain)
  | list _ ih | set _ ih => exact .collection blank nofun (ih nofun names) nofun
  | map _ _ ihk ihv =>
    obtain ⟨keys, values⟩ := List.forall_mem_append.mp names
    have space : Blank [' '] := fun c mem => List.mem_singleton.mp mem ▸ rfl
    exact .map blank nofun (ihk nofun keys) nofun (ihv space values) nofun

theorem type_spell (names : ∀ n ∈ e.names, IsName n) : (e.spell gap).type = e := by
  induction e generalizing gap with
  | base b =>
    rw [spell, Spelling.type, String.ofList_toList, ← ofWord?_eq_lookup, BaseType.ofWord?_word]
  | named n =>
    rw [spell, Spelling.type, String.ofList_toList, (names n (List.mem_singleton.mpr rfl)).free]
  | list _ ih | set _ ih =>
    rw [spell, Spelling.type, ih names]
    rfl
  | map _ _ ihk ihv =>
    obtain ⟨keys, values⟩ := List.forall_mem_append.mp names
    rw [spell, Spelling.type, ihk keys, ihv values]

/-- What is written of a tree is read as that tree, if its names are read as names. -/
theorem parse_render (names : ∀ n ∈ e.names, IsName n) (deep : e.nesting ≤ maxNesting) : parse e.render = .ok e := by
  have spells : (e.spell []).text ++ [] = e.render.toList := by rw [List.append_nil, text_spell, List.nil_append]
  exact parse_iff.mpr ⟨⟨⟨e.spell [], [], valid_spell nofun names, nofun, spells⟩, type_spell names⟩, deep⟩

theorem Spelling.Valid.isName {t : Spelling} (valid : t.Valid) : ∀ n ∈ t.type.names, IsName n := by
  induction valid with
  | @word _ w _ word plain =>
    intro n mem
    rw [Spelling.type] at mem
    cases sought : keywords.lookup (String.ofList w) <;> rw [sought] at mem
    · cases List.mem_singleton.mp mem
      exact ⟨by rwa [String.toList_ofList], plain, sought⟩
    · contradiction
  | @collection kind _ _ _ _ _ _ _ _ ih => cases kind <;> exact ih
  | map _ _ _ _ _ _ ihk ihv => exact List.forall_mem_append.mpr ⟨ihk, ihv⟩

/-- The names in a type that was read are read as names. -/
theorem isName_of_parse (h : parse s = .ok e) : ∀ n ∈ e.names, IsName n := by
  obtain ⟨⟨d, rfl⟩, -⟩ := parse_iff.mp h
  exact d.valid.isName

theorem hasDoubleDot_cons {c : Char} {cs : List Char} (apart : c = '.' → cs.head? ≠ some '.') :
    hasDoubleDot (c :: cs) = hasDoubleDot cs := by
  rw [hasDoubleDot]
  rintro ds rfl rfl
  exact apart rfl rfl

theorem hasDoubleDot_of_cons {c : Char} {cs : List Char} (h : hasDoubleDot (c :: cs) = false) :
    (c = '.' → cs.head? ≠ some '.') ∧ hasDoubleDot cs = false := by
  have apart : c = '.' → cs.head? ≠ some '.' := by
    rintro rfl first
    obtain ⟨ds, rfl⟩ := List.head?_eq_some_iff.mp first
    contradiction
  exact ⟨apart, by rwa [hasDoubleDot_cons apart] at h⟩

/-- No two dots meet where words are joined by a dot. -/
theorem hasDoubleDot_join (last : xs.getLast? ≠ some '.') (first : ys.head? ≠ some '.')
    (left : hasDoubleDot xs = false) (right : hasDoubleDot ys = false) : hasDoubleDot (xs ++ '.' :: ys) = false := by
  induction xs with
  | nil => exact (hasDoubleDot_cons fun _ => first).trans right
  | cons c cs ih =>
    obtain ⟨apart, left⟩ := hasDoubleDot_of_cons left
    have apart' : c = '.' → (cs ++ '.' :: ys).head? ≠ some '.' := by
      rintro rfl
      cases cs with
      | nil => exact absurd rfl last
      | cons d ds => exact apart rfl
    have last : cs.getLast? ≠ some '.' := by
      cases cs with
      | nil => exact nofun
      | cons d ds => rwa [List.getLast?_cons_cons] at last
    rw [List.cons_append, hasDoubleDot_cons apart', ih last left]

/-- Two words with a dot between them are one word. -/
theorem IsWord.join (left : IsWord xs) (right : IsWord ys) : IsWord (xs ++ '.' :: ys) := by
  obtain ⟨some, chars, dotted⟩ := isWord_iff.mp left
  obtain ⟨some', chars', dotted'⟩ := isWord_iff.mp right
  simp only [wellDotted, Bool.and_eq_true, bne_iff_ne, Bool.not_eq_true'] at dotted dotted'
  refine isWord_iff.mpr ⟨by simp, ?_, ?_⟩
  · simp only [List.forall_mem_append, List.forall_mem_cons]
    exact ⟨chars, rfl, chars'⟩
  · obtain ⟨x, xs, rfl⟩ := List.exists_cons_of_ne_nil some
    obtain ⟨y, ys, rfl⟩ := List.exists_cons_of_ne_nil some'
    simp only [wellDotted, Bool.and_eq_true, bne_iff_ne, Bool.not_eq_true']
    refine ⟨⟨dotted.1.1, ?_⟩, hasDoubleDot_join dotted.1.2 dotted'.1.1 dotted.2 dotted'.2⟩
    rw [List.getLast?_append_of_ne_nil _ (List.cons_ne_nil _ _), List.getLast?_cons_cons]
    exact dotted'.1.2

/-- A word with a dot is neither the word of a container nor a keyword. -/
theorem isName_of_dot (word : IsWord n.toList) (dot : '.' ∈ n.toList) : IsName n := by
  have reserved : ∀ w ∈ containers ++ keywords.map Prod.fst, '.' ∉ w.toList := by decide
  refine ⟨word, fun mem => reserved n (List.mem_append_left _ mem) dot, ?_⟩
  rw [List.lookup_eq_none_iff]
  intro entry mem
  rw [bne_iff_ne]
  rintro rfl
  exact reserved _ (List.mem_append_right _ (List.mem_map_of_mem mem)) dot

theorem IsName.qualify (name : IsName n) (namespaced : IsWord scope.toList) : IsName (qualify scope n) := by
  unfold ThriftCatalog.qualify
  split
  · exact name
  · refine isName_of_dot ?_ (by simp)
    rw [String.toList_append, String.toList_append, List.append_assoc]
    exact namespaced.join name.word

/-- Trees of one shape and with the same base types, whose names correspond. -/
inductive Alike (R : String → String → Prop) : TypeExpr → TypeExpr → Prop where
  | base (b : BaseType) : Alike R (base b) (base b)
  | list {e e' : TypeExpr} : Alike R e e' → Alike R (list e) (list e')
  | set {e e' : TypeExpr} : Alike R e e' → Alike R (set e) (set e')
  | map {k k' v v' : TypeExpr} : Alike R k k' → Alike R v v' → Alike R (map k v) (map k' v')
  | named {n n' : String} : R n n' → Alike R (named n) (named n')

theorem alike_mapNames {R : String → String → Prop} {f : String → String} (related : ∀ n, R n (f n)) (e : TypeExpr) :
    Alike R e (e.mapNames f) := by
  induction e with
  | base b => exact .base b
  | list _ ih => exact .list ih
  | set _ ih => exact .set ih
  | map _ _ ihk ihv => exact .map ihk ihv
  | named n => exact .named (related n)

theorem mapNames_mapNames (f g : String → String) (e : TypeExpr) :
    (e.mapNames f).mapNames g = e.mapNames (g ∘ f) := by
  induction e <;> simp_all [mapNames]

/-- In a namespace the names without a dot have it in front of them, and the names with a dot are as they were. -/
def Qualified (scope n n' : String) : Prop :=
  ('.' ∈ n.toList → n' = n) ∧ ('.' ∉ n.toList → n' = scope ++ "." ++ n)

theorem qualified_qualify (some : scope ≠ "") (n : String) : Qualified scope n (qualify scope n) :=
  ⟨qualify_of_dot, fun bare => by simp [qualify, bare, some]⟩

/-- A type that was read is written as a text that is read as the same type. This stays so when its names are put into
a namespace, which changes nothing but the names without a dot, and these once only. -/
theorem render_parse (h : parse s = .ok e) : parse e.render = .ok e ∧
    ∀ scope : String, IsWord scope.toList →
      parse (e.mapNames (qualify scope)).render = .ok (e.mapNames (qualify scope)) ∧
      Alike (Qualified scope) e (e.mapNames (qualify scope)) ∧
      (e.mapNames (qualify scope)).mapNames (qualify scope) = e.mapNames (qualify scope) := by
  have names := isName_of_parse h
  have deep := parse_nesting h
  refine ⟨parse_render names deep, fun scope word => ⟨?_, ?_, ?_⟩⟩
  · refine parse_render ?_ (by rwa [nesting_mapNames])
    simp only [names_mapNames, List.forall_mem_map]
    exact fun n mem => (names n mem).qualify word
  · refine alike_mapNames (qualified_qualify ?_) e
    rintro rfl
    exact word.nonempty rfl
  · rw [mapNames_mapNames]
    congr 1
    funext n
    exact qualify_qualify scope n

theorem nestedSample_rendered :
    parse " map < i8 ,\n list<set<Foo>> >" = .ok (.map (.base .byte) (.list (.set (.named "Foo")))) ∧
      IsWord "com.example".toList ∧
      parse "map<byte, list<set<com.example.Foo>>>" =
        .ok (.map (.base .byte) (.list (.set (.named "com.example.Foo")))) := by
  have read : parse " map < i8 ,\n list<set<Foo>> >" = .ok (.map (.base .byte) (.list (.set (.named "Foo")))) := by
    decide +kernel
  have word : IsWord "com.example".toList := isWord_iff_bool.mpr rfl
  have written := ((render_parse read).2 "com.example" word).1
  exact ⟨read, word, written⟩

end ThriftCatalog.TypeExpr
