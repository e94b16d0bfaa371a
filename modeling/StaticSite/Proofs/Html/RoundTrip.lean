import StaticSite.Proofs.Html.Reading
import StaticSite.Proofs.Html.Shape

/-!
# Documents that are written and read again

A forest that has the shape of a forest that was read is written to a text that is read as the same
forest, where a `"` in a value has become `&quot;` (`reads_source`). This needs each part to be
taken for what it was when it is read again (`legible`). Two things can go wrong with what was read:

* a text can hold a `<` with what opens markup behind it, where something was left out between the
  two, or begin with a byte order mark where a run starts;
* the quotes in a tag can be open, so that the tag goes on behind its `>`.
-/

namespace StaticSite.Html

open StaticSite.Text

/-! ## What is taken for what it was -/

/-- Whether the start and the end tag are read as they are written. -/
def Tag.isLegible (t : Tag) : Bool :=
  t.name.toList.head?.any Char.isAlpha && isClosed t.source &&
    (t.selfClosing || t.source.getLast? != some '/') && (t.isChildless || isClosed t.name.toList)

/-- Whether a run starts behind the node. -/
def Node.endsRun : Node → Bool
  | .element t _ => !t.isChildless && isRawText t.name
  | _ => false

mutual

/-- Whether what is written of the node is taken for the node when it is read. The flag says whether
a run starts in front of it. -/
def Node.legible (fresh : Bool) : Node → Bool
  | .element t cs => t.isLegible && (isRawText t.name || legible false cs)
  | .text s => runsOn s.toList && !(fresh && s.toList.head? == some byteOrderMark)
  | _ => true

/-- Whether what is written of the forest is taken for the forest when it is read. The flag says
whether a run starts in front of it. -/
def legible (fresh : Bool) : Forest → Bool
  | [] => true
  | n :: ns => n.legible fresh && legible n.endsRun ns

end

theorem Tag.isLegible_iff {t : Tag} :
    t.isLegible = true ↔ t.Legible ∧ (t.selfClosing = true ∨ t.source.getLast? ≠ some '/') ∧
      (t.isChildless = true ∨ isClosed t.name.toList = true) := by
  have hhead : t.name.toList.head?.any Char.isAlpha = true ↔
      ∃ c s, t.name.toList = c :: s ∧ c.isAlpha = true := by
    rcases t.name.toList with _ | ⟨c, s⟩
    · simp
    · simp
  rw [isLegible, Bool.and_eq_true, Bool.and_eq_true, Bool.and_eq_true, Bool.or_eq_true,
    Bool.or_eq_true, bne_iff_ne, hhead]
  exact ⟨fun ⟨⟨⟨hh, hc⟩, hl⟩, he⟩ => ⟨⟨hh, hc⟩, hl, he⟩,
    fun ⟨⟨hh, hc⟩, hl, he⟩ => ⟨⟨⟨hh, hc⟩, hl⟩, he⟩⟩

/-! ## Where text ends -/

theorem Node.Shaped.source_head {n : Node} (h : n.Shaped) (ht : n.isText = false) :
    ∃ s, n.source = '<' :: s := by
  cases h with
  | text _ => cases ht
  | markup _ h =>
    obtain ⟨c, s, hs, -⟩ := h
    exact ⟨_, hs⟩
  | childless | raw | element =>
    unfold Node.source
    split
    · exact ⟨_, rfl⟩
    · split
      · exact ⟨_, rfl⟩
      · exact ⟨_, rfl⟩

/-- Text ends in front of a node that is no text. -/
theorem stops_source {ns : Forest} (hs : Shaped ns) (hn : ∀ n ∈ ns.head?, n.isText = false)
    {tail : List Char} (htail : Stops tail) : Stops (source ns ++ tail) := by
  rcases ns with _ | ⟨n, ns⟩
  · exact htail
  · obtain ⟨s, hsource⟩ := (hs.nodes n (List.mem_cons_self ..)).source_head (hn n rfl)
    intro c hc
    rw [source, hsource] at hc
    exact (Option.some.inj hc).symm

theorem Stops.head?_ne {s : List Char} (h : Stops s) : s.head? ≠ some byteOrderMark := by
  intro hs
  exact absurd (h byteOrderMark hs) (by decide)

/-- No byte order mark is written where a run starts. -/
theorem head?_source_ne {ns : Forest} (hs : Shaped ns) (hl : legible true ns = true)
    {tail : List Char} (htail : Stops tail) : (source ns ++ tail).head? ≠ some byteOrderMark := by
  rcases ns with _ | ⟨n, ns⟩
  · exact htail.head?_ne
  rcases ht : n.isText with _ | _
  · refine (stops_source hs (fun m hm => ?_) htail).head?_ne
    obtain rfl := Option.some.inj hm
    exact ht
  · cases n with
    | text s =>
      have hne : s ≠ "" := by
        cases hs.nodes _ (List.mem_cons_self ..) with
        | text h => exact h
        | markup hm _ => cases hm
      rcases hst : s.toList with _ | ⟨c, t⟩
      · exact absurd (String.toList_eq_nil_iff.1 hst) hne
      · rw [legible, Node.legible, hst, Bool.and_eq_true, Bool.and_eq_true] at hl
        unfold source Node.source
        rw [hst]
        simpa using hl.1.2
    | _ => cases ht

/-! ## Reading what was written -/

/-- Adds nodes at the end of the innermost open element. -/
def Growth.pushAll (g : Growth) (ns : Forest) : Growth := { g with nodes := ns.reverse ++ g.nodes }

theorem Growth.pushAll_cons (g : Growth) (n : Node) (ns : Forest) :
    g.pushAll (n :: ns) = (g.push n).pushAll ns := by
  rw [pushAll, List.reverse_cons, List.append_assoc]
  rfl

theorem Growth.closeTag?_openTag (g : Growth) (t : Tag) (ns : Forest) :
    ((g.openTag t).pushAll ns).closeTag? t.name = some (g.push (.element t ns)) := by
  have hname : t.is t.name = true := beq_iff_eq.2 rfl
  simp only [closeTag?, openTag, pushAll, closeIn, hname, if_true, closeOne, List.append_nil,
    List.reverse_reverse]
  rfl

/-- The node does not join what was read last. -/
def Growth.Takes (g : Growth) (n : Node) : Prop :=
  ∀ m ∈ g.nodes.head?, (m.isText && n.isText) = false

/-- What is written of the forest is read as the forest, whatever was read before. -/
def ReadsBack (ns : Forest) : Prop :=
  ∀ (g : Growth) (tail : List Char) (out : Forest), (∀ n ∈ ns.head?, g.Takes n) → Stops tail →
    Reads tail (g.pushAll (mapTags Tag.requote ns)) out → Reads (source ns ++ tail) g out

theorem Node.isText_mapTags (f : Tag → Tag) (n : Node) : (n.mapTags f).isText = n.isText := by
  cases n <;> rfl

theorem mapTags_rawText (f : Tag → Tag) (s : List Char) : mapTags f (rawText s) = rawText s :=
  mapTags_leaves rawText_leaves f

section Element

variable {t : Tag} {g : Growth} {rest : List Char} {out : Forest}

theorem reads_childless (ht : t.Lexical) (hl : t.isLegible = true) (h : t.isChildless = true)
    (hr : Reads rest (g.push (.element t.requote [])) out) :
    Reads ((Node.element t []).source ++ rest) g out := by
  obtain ⟨hlegible, hlast, -⟩ := Tag.isLegible_iff.1 hl
  unfold Node.source
  rcases hself : t.selfClosing with _ | _
  · have hv : isVoid t.name = true := by rwa [Tag.isChildless, hself, Bool.false_or] at h
    rw [hself] at hlast
    simp only [Bool.false_and, Bool.false_eq_true, if_false, hv, if_true, List.cons_append,
      List.append_assoc, List.nil_append]
    exact hr.void ht hlegible hself (hlast.resolve_left Bool.false_ne_true) hv
  · have := hr.selfClosing ht hlegible hself
    simpa using this

variable (ht : t.Lexical) (hl : t.isLegible = true) (h : t.isChildless = false)

include h in
theorem source_of_children (cs : Forest) :
    (Node.element t cs).source ++ rest =
      '<' :: (t.source ++ '>' :: (source cs ++ '<' :: '/' :: (t.name.toList ++ '>' :: rest))) := by
  obtain ⟨hself, hv⟩ := Bool.or_eq_false_iff.1 h
  unfold Node.source
  simp [hself, hv]

include ht hl h

theorem reads_raw (hraw : isRawText t.name = true) {s : List Char}
    (hs : (splitContent t.name.toList s).2 = []) (hrest : rest.head? ≠ some byteOrderMark)
    (hr : Reads rest (g.push (.element t.requote (rawText s))) out) :
    Reads ((Node.element t (rawText s)).source ++ rest) g out := by
  obtain ⟨hself, hv⟩ := Bool.or_eq_false_iff.1 h
  obtain ⟨hlegible, hlast, -⟩ := Tag.isLegible_iff.1 hl
  rw [hself] at hlast
  have hsource : source (rawText s) = s := by
    rcases s with _ | ⟨c, s⟩
    · rfl
    · unfold rawText source Node.source source
      simp
  obtain ⟨hlt, hgt⟩ := isRawText_plain hraw
  have hafter : '>' ∉ '<' :: '/' :: t.name.toList := by simp [hgt]
  rw [source_of_children h, hsource]
  refine hr.raw ht hlegible hself (hlast.resolve_left Bool.false_ne_true) hv hraw
    (splitContent_append_endTag hlt hs _) ?_ hrest
  exact congrArg Prod.snd (splitAfter_append_cons hafter rest)

theorem reads_element (hraw : isRawText t.name = false) {cs : Forest} (hcs : ReadsBack cs)
    (hr : Reads rest (g.push (.element t.requote (mapTags Tag.requote cs))) out) :
    Reads ((Node.element t cs).source ++ rest) g out := by
  obtain ⟨hself, hv⟩ := Bool.or_eq_false_iff.1 h
  obtain ⟨hlegible, hlast, hend⟩ := Tag.isLegible_iff.1 hl
  rw [hself] at hlast
  rw [h] at hend
  rw [source_of_children h]
  refine Reads.startTag ht hlegible hself (hlast.resolve_left Bool.false_ne_true) hv hraw
    (hcs _ _ _ (fun _ _ _ hm => by cases hm) (fun _ hc => (Option.some.inj hc).symm) ?_)
  exact hr.endTag ht.name (hend.resolve_left Bool.false_ne_true) hv
    (Growth.closeTag?_openTag g t.requote _)

end Element

/-- A node is read back if its children are, and the text behind it stops or starts as it must. -/
theorem reads_node {n : Node} {g : Growth} {rest : List Char} {out : Forest} {fresh : Bool}
    (hn : n.Shaped) (hl : n.legible fresh = true)
    (hchildren : ∀ t cs, n = .element t cs → Shaped cs → legible false cs = true → ReadsBack cs)
    (hg : g.Takes n) (hstops : n.isText = true → Stops rest)
    (hstart : n.endsRun = true → rest.head? ≠ some byteOrderMark)
    (hr : Reads rest (g.push (n.mapTags Tag.requote)) out) : Reads (n.source ++ rest) g out := by
  cases hn with
  | @text s hs =>
    rw [Node.legible, Bool.and_eq_true] at hl
    have hjoin : g.pushText (String.ofList s.toList) = g.push (.text s) := by
      rw [String.ofList_toList]
      refine Growth.pushText_eq_push hs fun t ht => ?_
      have := hg _ ht
      cases this
    unfold Node.source
    refine Reads.text hl.1 (hstops rfl) ?_
    rw [hjoin]
    exact hr
  | markup hm hn =>
    refine Reads.leaf ?_ hn
    cases n <;> first | exact hr | cases hm
  | childless ht h =>
    rw [Node.legible, Bool.and_eq_true] at hl
    exact reads_childless ht hl.1 h hr
  | @raw t s ht h hraw hs =>
    rw [Node.legible, Bool.and_eq_true] at hl
    refine reads_raw ht hl.1 h hraw hs (hstart ?_) ?_
    · rw [Node.endsRun, h, hraw]
      rfl
    · rwa [Node.mapTags, mapTags_rawText] at hr
  | @element t cs ht h hraw apart nodes =>
    rw [Node.legible, Bool.and_eq_true, hraw, Bool.false_or] at hl
    exact reads_element ht hl.1 h hraw (hchildren t cs rfl ⟨apart, nodes⟩ hl.2) hr

theorem readsBack_cons {n : Node} {ns : Forest} {fresh : Bool}
    (hchildren : ∀ t cs, n = .element t cs → Shaped cs → legible false cs = true → ReadsBack cs)
    (hrest : ∀ fresh', Shaped ns → legible fresh' ns = true → ReadsBack ns)
    (hs : Shaped (n :: ns)) (hl : legible fresh (n :: ns) = true) : ReadsBack (n :: ns) := by
  intro g tail out hg htail hr
  rw [legible, Bool.and_eq_true] at hl
  obtain ⟨hn, hns⟩ := hs.of_cons
  have hnext := (List.isChain_cons.1 hs.apart).1
  rw [source, List.append_assoc]
  refine reads_node hn hl.1 hchildren (hg n rfl) (fun ht => ?_) (fun hend => ?_)
    (hrest _ hns hl.2 _ _ _ (fun m hm k hk => ?_) htail ?_)
  · refine stops_source hns (fun m hm => ?_) htail
    have := hnext m hm
    rwa [ht, Bool.true_and] at this
  · rw [hend] at hl
    exact head?_source_ne hns hl.2 htail
  · obtain rfl := Option.some.inj hk
    rw [Node.isText_mapTags]
    exact hnext m hm
  · rwa [mapTags, Growth.pushAll_cons] at hr

/-- What is written of a legible forest is read as the forest. -/
theorem reads_source {ns : Forest} :
    ∀ {fresh : Bool}, Shaped ns → legible fresh ns = true → ReadsBack ns := by
  induction ns using forest_induction with
  | nil => exact fun _ _ g tail out _ _ hr => hr
  | leaf n ns hn ih =>
    refine readsBack_cons (fun t cs heq => ?_) fun _ => ih
    subst heq
    cases hn
  | element t cs ns ihcs ihns =>
    refine readsBack_cons (fun u ds heq hs hl => ?_) fun _ => ihns
    cases heq
    exact ihcs hs hl

/-- A legible forest is read from what is written of it, with each `"` in a value as `&quot;`. -/
theorem parse_source {ns : Forest} (hs : Shaped ns) (hl : legible true ns = true) :
    parse (serialize ns) = .ok (mapTags Tag.requote ns) := by
  have hnil : Stops [] := fun _ h => by cases h
  have hstart := head?_source_ne hs hl hnil
  have hreads := reads_source hs hl {} [] (mapTags Tag.requote ns)
    (fun _ _ _ h => by cases h) hnil (by
      have := Reads.nil (Growth.pushAll {} (mapTags Tag.requote ns))
      simpa [Growth.finish, Growth.pushAll] using this)
  rw [List.append_nil] at hstart hreads
  have hsource : (serialize ns).toList = source ns := String.toList_ofList
  exact parse_of_reads (by rwa [hsource]) (by rwa [hsource])

/-! ## Documents that were read -/

theorem source_mapTags_requote (ns : Forest) : source (mapTags Tag.requote ns) = source ns := by
  induction ns using forest_induction with
  | nil => rfl
  | leaf n ns hn ih => rw [mapTags_leaf hn, source, source, ih]
  | element t cs ns ihcs ihns =>
    have hempty : (mapTags Tag.requote cs).isEmpty = cs.isEmpty := by
      rcases cs with _ | ⟨c, cs⟩
      · rfl
      · rfl
    rw [mapTags_element, source_element, source_element, ihcs, ihns, Tag.requote_source, hempty]
    rfl

/-- A document that was read is written to a text that is read as the same document, with each `"`
in a value as `&quot;`, and that is written again as it stands, if the document is legible. -/
theorem parse_serialize_of_parse {s : String} {ns : Forest} (h : parse s = .ok ns)
    (hl : legible true ns = true) :
    parse (serialize ns) = .ok (mapTags Tag.requote ns) ∧
      (parse (serialize ns)).map serialize = .ok (serialize ns) := by
  have hparse := parse_source (parse_shaped h) hl
  refine ⟨hparse, ?_⟩
  rw [hparse, Except.map, serialize, source_mapTags_requote]
  rfl

/-- A document with a quote in a value, a lone `<` and a script that holds an end tag. -/
def lenientSample : Forest :=
  [.element ⟨"p", [("ID", "a\"b"), ("on", "")], false, none⟩
      [.text "1 < 2 &amp; x", .element ⟨"br", [], false, none⟩ []],
    .element ⟨"script", [], false, none⟩ [.text "if (a</b) x"], .comment " > "]

theorem parse_serialize_of_parse_sample :
    parse "<p ID='a\"b' on>1 < 2 &amp; x<br></p><script>if (a</b) x</script><!-- > -->" =
        .ok lenientSample ∧
      legible true lenientSample = true ∧
      parse (serialize lenientSample) = .ok (mapTags Tag.requote lenientSample) ∧
      (parse (serialize lenientSample)).map serialize = .ok (serialize lenientSample) := by
  have h : parse "<p ID='a\"b' on>1 < 2 &amp; x<br></p><script>if (a</b) x</script><!-- > -->" =
      .ok lenientSample := by decide +kernel
  have hl : legible true lenientSample = true := by decide +kernel
  exact ⟨h, hl, parse_serialize_of_parse h hl⟩

/-- Where an end tag is left out behind a `<`, the text that is written can hold a tag. -/
theorem parse_serialize_makes_tag :
    parse "<</br>b>x" = .ok [.text "<b>x"] ∧
      mapTags Tag.requote [.text "<b>x"] = [.text "<b>x"] ∧
      parse (serialize [.text "<b>x"]) = .ok [.element ⟨"b", [], false, none⟩ [.text "x"]] ∧
      serialize [.element ⟨"b", [], false, none⟩ [.text "x"]] ≠ serialize [.text "<b>x"] := by
  decide +kernel

end StaticSite.Html
