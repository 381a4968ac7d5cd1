import CHttp.Http.Serialize

/-!
# Header lists as maps

`message.h` describes the headers of a message as a map: a header that is added replaces the one
with its key. `Message_add_header_cstring` adds to the back of the list whatever is there, and
`HdrList_find` returns the first match, so that a header added twice has two entries of which the
older one is found. `Message_set_content_length` does look for the entry first.
-/

namespace CHttp

/-- The name that an entry is found by. -/
def KVPair.name (kvp : KVPair) : List UInt8 := cString kvp.label

/-- Labels are in upper case, and no two entries have the same name. -/
structure HdrList.IsMap (hdrs : HdrList) : Prop where
  labels : ∀ item ∈ hdrs, item.label.map toUpper = item.label
  nodup : (hdrs.map KVPair.name).Nodup

namespace Message

/-- What `Message_add_header_cstring` is to do, from `m` to `m'`: there is one entry for the key,
it has the value, under the key in any letter case, and the entries for other names are as before,
in their order. -/
structure Replaces (m m' : Message) (key value : List UInt8) : Prop where
  one : (m'.headers.filter fun kvp => kvp.name = makeUpper key).length = 1
  value : ∀ k, makeUpper k = makeUpper key → m'.getHeaderValue k = some (cString value)
  isMap : m'.headers.IsMap
  others : m'.headers.filter (fun kvp => kvp.name ≠ makeUpper key) =
    m.headers.filter fun kvp => kvp.name ≠ makeUpper key

/-- The entry that is added. -/
theorem name_new (key value : List UInt8) :
    (KVPair.new (cString key) (cString value)).name = makeUpper key := by
  rw [KVPair.name, KVPair.new, cString_map_toUpper, makeUpper, makeUpper]
  congr 1
  exact cString_takeWhile key

theorem find_eq_none_iff {hdrs : HdrList} {key : List UInt8} :
    hdrs.find key = none ↔ ∀ kvp ∈ hdrs, kvp.name ≠ makeUpper key := by
  simp [HdrList.find, KVPair.name]

/-- Adding a header replaces the one with its key exactly if there is none. -/
theorem addHeaderCstring_replaces_iff (m : Message) (key value : List UInt8)
    (h : m.headers.IsMap) :
    m.Replaces (m.addHeaderCstring key value) key value ↔ m.headers.find key = none := by
  have hname := name_new key value
  constructor
  · -- an entry for the key is found beside the one that was added
    intro hrep
    rw [find_eq_none_iff]
    intro kvp hmem heq
    have hone := hrep.one
    simp only [addHeaderCstring, HdrList.addCstr, HdrList.addBack, List.filter_append,
      List.length_append, List.filter_cons, hname, decide_true, if_true, List.filter_nil,
      List.length_singleton] at hone
    have hpos : 0 < (m.headers.filter fun kvp => kvp.name = makeUpper key).length :=
      List.length_pos_of_mem (List.mem_filter.mpr ⟨hmem, by simpa using heq⟩)
    omega
  · intro hnone
    have hnone' := find_eq_none_iff.mp hnone
    have hempty : (m.headers.filter fun kvp => kvp.name = makeUpper key) = [] := by
      rw [List.filter_eq_nil_iff]
      intro kvp hmem
      simpa using hnone' kvp hmem
    refine ⟨?_, fun k hk => ?_, ⟨labels_addBack h.labels _ _, ?_⟩, ?_⟩
    · simp [addHeaderCstring, HdrList.addCstr, HdrList.addBack, List.filter_append, hempty, hname]
    · have hnot : m.headers.find? (fun hlr => cString hlr.label = makeUpper k) = none := by
        rw [hk]
        exact hnone
      have hlabel : cString (KVPair.new (cString key) (cString value)).label = makeUpper k :=
        hname.trans hk.symm
      have hfind : (m.addHeaderCstring key value).headers.find k =
          some (KVPair.new (cString key) (cString value)) := by
        simp [addHeaderCstring, HdrList.addCstr, HdrList.addBack, HdrList.find, List.find?_append,
          hnot, hlabel]
      rw [getHeaderValue, hfind]
      exact congrArg some (cString_takeWhile value)
    · change ((m.headers ++ [KVPair.new (cString key) (cString value)]).map KVPair.name).Nodup
      rw [List.map_append, List.map_singleton, hname, List.nodup_append]
      refine ⟨h.nodup, by simp, fun a ha b hb => ?_⟩
      obtain ⟨kvp, hmem, rfl⟩ := List.mem_map.mp ha
      rw [List.mem_singleton.mp hb]
      exact hnone' kvp hmem
    · simp [addHeaderCstring, HdrList.addCstr, HdrList.addBack, List.filter_append, hname]

/-- A response with two headers for other keys. -/
def typedResponse : Message :=
  newResponse Junk.zeros |>.addHeaderCstring (ascii "Content-Type") (ascii "text/html")
    |>.addHeaderCstring (ascii "Content-length") (ascii "2")

theorem addHeaderCstring_replaces_third :
    typedResponse.headers.length = 2 ∧
      typedResponse.Replaces
        (typedResponse.addHeaderCstring (ascii "Connection") (ascii "close"))
        (ascii "Connection") (ascii "close") :=
  ⟨rfl, (addHeaderCstring_replaces_iff _ _ _ ⟨by decide, by decide⟩).mpr rfl⟩

/-- A response whose application has set the header: after the server's own there are two entries,
and the one that is found has the old value. -/
theorem not_replaces_connection :
    (newResponse Junk.zeros |>.addHeaderCstring (ascii "Connection")
        (ascii "keep-alive")).headers.IsMap ∧
      ¬ (newResponse Junk.zeros |>.addHeaderCstring (ascii "Connection")
          (ascii "keep-alive")).Replaces
        (newResponse Junk.zeros |>.addHeaderCstring (ascii "Connection") (ascii "keep-alive")
          |>.addHeaderCstring (ascii "CONNECTION") (ascii "close"))
        (ascii "CONNECTION") (ascii "close") := by
  refine ⟨⟨by decide, by decide⟩, fun h => ?_⟩
  exact absurd (h.value (ascii "Connection") (by decide)) (by decide)

end Message

end CHttp
