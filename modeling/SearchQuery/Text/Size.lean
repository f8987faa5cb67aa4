namespace SearchQuery.Text

-- The number of bytes of a text in UTF-8.
def size : List Char → Nat
  | []      => 0
  | c :: cs => c.utf8Size + size cs

@[simp]
theorem size_nil : size [] = 0 :=
  rfl

@[simp]
theorem size_cons : size (c :: cs) = c.utf8Size + size cs :=
  rfl

@[simp]
theorem size_append : size (cs ++ ds) = size cs + size ds := by
  induction cs
  case nil => simp
  case cons hi => simp [hi, Nat.add_assoc]

theorem size_eq_zero_iff : size cs = 0 ↔ cs = [] := by
  cases cs <;> simp
  case cons c _ => intro h; simp [Nat.ne_of_gt c.utf8Size_pos] at h

end SearchQuery.Text
