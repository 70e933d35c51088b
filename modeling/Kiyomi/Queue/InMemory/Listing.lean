import Kiyomi.Foundation.StableSort
import Kiyomi.Queue.InMemory.Driver
import Mathlib.Data.String.Basic

namespace Kiyomi.Queue.InMemory

open Go StableSort

/-! # The order of a listing in memory

`ListJobs` ranges over the map and sorts what it found. The comparison looks at the page
index of two jobs only when both have one, and at their ids otherwise. -/

namespace Store

variable {d : Store} {left right : Job}

/-- The page index that the metadata of a job gives. -/
def pageIndex (job : Job) : Option Int := (metadataValue job "page_index").bind Go.atoi

theorem listedBefore_of_ne (different : left.createdAt.unixNano ≠ right.createdAt.unixNano) :
    listedBefore left right = true ↔ left.createdAt.unixNano < right.createdAt.unixNano := by
  rw [listedBefore, if_pos different, decide_eq_true_eq]

theorem listedBefore_paged (sameTime : left.createdAt.unixNano = right.createdAt.unixNano)
    {leftPage rightPage : Int} (leftPaged : pageIndex left = some leftPage)
    (rightPaged : pageIndex right = some rightPage) :
    listedBefore left right = true ↔
      leftPage < rightPage ∨ leftPage = rightPage ∧ left.id < right.id := by
  rw [pageIndex] at leftPaged rightPaged
  simp only [listedBefore, sameTime, ne_eq, not_true_eq_false, if_false, leftPaged, rightPaged]
  split
  · rename_i different
    simp [different]
  · rename_i same
    rw [not_not] at same
    simp [same]

theorem listedBefore_unpaged (sameTime : left.createdAt.unixNano = right.createdAt.unixNano)
    (unpaged : pageIndex left = none ∨ pageIndex right = none) :
    listedBefore left right = true ↔ left.id < right.id := by
  simp only [pageIndex] at unpaged
  rcases unpaged with leftUnpaged | rightUnpaged
  · simp [listedBefore, sameTime, leftUnpaged]
  · cases leftPaged : (metadataValue left "page_index").bind Go.atoi with
    | none => simp [listedBefore, sameTime, leftPaged]
    | some leftPage => simp [listedBefore, sameTime, rightUnpaged, leftPaged]

/-- No job without a page index stands, by its id, between two pages of its instant whose
indices are in the opposite order of their ids. -/
def PagesFollowIds (d : Store) : Prop :=
  ∀ left ∈ d.jobs, ∀ middle ∈ d.jobs, ∀ right ∈ d.jobs, ∀ leftPage rightPage,
    left.createdAt.unixNano = middle.createdAt.unixNano →
    middle.createdAt.unixNano = right.createdAt.unixNano →
    pageIndex left = some leftPage → pageIndex middle = none → pageIndex right = some rightPage →
    leftPage < rightPage → ¬ (right.id < middle.id ∧ middle.id < left.id)

theorem id_lt_of_not_lt {a c : Job} (aMember : a ∈ d.jobs) (cMember : c ∈ d.jobs)
    (different : pageIndex a ≠ pageIndex c) (notBefore : ¬ a.id < c.id) : c.id < a.id := by
  refine lt_of_le_of_ne (not_lt.mp notBefore) fun sameId => different ?_
  rw [eq_of_id aMember cMember sameId.symm]

/-- Among jobs of one instant a cycle takes two pages and a job without an index. -/
theorem listedBefore_trans_at {a b c : Job} (follows : d.PagesFollowIds) (aMember : a ∈ d.jobs)
    (bMember : b ∈ d.jobs) (cMember : c ∈ d.jobs)
    (ab : a.createdAt.unixNano = b.createdAt.unixNano)
    (bc : b.createdAt.unixNano = c.createdAt.unixNano)
    (first : listedBefore a b = true) (second : listedBefore b c = true) :
    listedBefore a c = true := by
  have ac := ab.trans bc
  cases aPaged : pageIndex a with
  | none =>
      rw [listedBefore_unpaged ab (.inl aPaged)] at first
      rw [listedBefore_unpaged ac (.inl aPaged)]
      cases bPaged : pageIndex b with
      | none =>
          rw [listedBefore_unpaged bc (.inl bPaged)] at second
          exact lt_trans first second
      | some bPage =>
          cases cPaged : pageIndex c with
          | none =>
              rw [listedBefore_unpaged bc (.inr cPaged)] at second
              exact lt_trans first second
          | some cPage =>
              rw [listedBefore_paged bc bPaged cPaged] at second
              rcases second with before | ⟨_, before⟩
              · by_contra notBefore
                have after := id_lt_of_not_lt aMember cMember (by simp [aPaged, cPaged]) notBefore
                exact follows b bMember a aMember c cMember bPage cPage ab.symm ac bPaged aPaged
                  cPaged before ⟨after, first⟩
              · exact lt_trans first before
  | some aPage =>
      cases bPaged : pageIndex b with
      | none =>
          rw [listedBefore_unpaged ab (.inr bPaged)] at first
          rw [listedBefore_unpaged bc (.inl bPaged)] at second
          cases cPaged : pageIndex c with
          | none =>
              rw [listedBefore_unpaged ac (.inr cPaged)]
              exact lt_trans first second
          | some cPage =>
              rw [listedBefore_paged ac aPaged cPaged]
              rcases Int.lt_trichotomy aPage cPage with before | same | after
              · exact .inl before
              · exact .inr ⟨same, lt_trans first second⟩
              · exact absurd ⟨first, second⟩ (follows c cMember b bMember a aMember cPage aPage
                  bc.symm ab.symm cPaged bPaged aPaged after)
      | some bPage =>
          rw [listedBefore_paged ab aPaged bPaged] at first
          cases cPaged : pageIndex c with
          | none =>
              rw [listedBefore_unpaged bc (.inr cPaged)] at second
              rw [listedBefore_unpaged ac (.inr cPaged)]
              rcases first with before | ⟨_, before⟩
              · by_contra notBefore
                have after := id_lt_of_not_lt aMember cMember (by simp [aPaged, cPaged]) notBefore
                exact follows a aMember c cMember b bMember aPage bPage ac bc.symm aPaged cPaged
                  bPaged before ⟨second, after⟩
              · exact lt_trans before second
          | some cPage =>
              rw [listedBefore_paged bc bPaged cPaged] at second
              rw [listedBefore_paged ac aPaged cPaged]
              rcases first with before | ⟨samePage, before⟩
              · left
                omega
              · rcases second with after | ⟨samePage', after⟩
                · left
                  omega
                · exact .inr ⟨samePage.trans samePage', lt_trans before after⟩

theorem listedBefore_irrefl (job : Job) : listedBefore job job = false := by
  rw [← Bool.not_eq_true]
  cases paged : pageIndex job with
  | none =>
      rw [listedBefore_unpaged rfl (.inl paged)]
      exact lt_irrefl _
  | some page =>
      rw [listedBefore_paged rfl paged paged]
      simp

theorem listedBefore_total (leftMember : left ∈ d.jobs) (rightMember : right ∈ d.jobs)
    (different : left ≠ right) :
    listedBefore left right = true ∨ listedBefore right left = true := by
  have differentIds : left.id ≠ right.id := mt (eq_of_id leftMember rightMember) different
  by_cases sameTime : left.createdAt.unixNano = right.createdAt.unixNano
  · have byId := lt_or_gt_of_ne differentIds
    cases leftPaged : pageIndex left with
    | none =>
        rwa [listedBefore_unpaged sameTime (.inl leftPaged),
          listedBefore_unpaged sameTime.symm (.inr leftPaged)]
    | some leftPage =>
        cases rightPaged : pageIndex right with
        | none =>
            rwa [listedBefore_unpaged sameTime (.inr rightPaged),
              listedBefore_unpaged sameTime.symm (.inl rightPaged)]
        | some rightPage =>
            rw [listedBefore_paged sameTime leftPaged rightPaged,
              listedBefore_paged sameTime.symm rightPaged leftPaged]
            rcases Int.lt_trichotomy leftPage rightPage with before | same | after
            · exact .inl (.inl before)
            · exact byId.imp (fun before => .inr ⟨same, before⟩)
                (fun after => .inr ⟨same.symm, after⟩)
            · exact .inr (.inl after)
  · rw [listedBefore_of_ne sameTime, listedBefore_of_ne (Ne.symm sameTime)]
    omega

theorem strictTotalOn_iff (d : Store) :
    StrictTotalOn listedBefore d.jobs ↔ d.PagesFollowIds := by
  constructor
  · intro order left leftMember middle middleMember right rightMember leftPage rightPage leftMiddle
      middleRight leftPaged middleUnpaged rightPaged before between
    -- The three jobs would be a cycle.
    have leftRight := (listedBefore_paged (leftMiddle.trans middleRight) leftPaged rightPaged).mpr
      (.inl before)
    have rightMiddle := (listedBefore_unpaged middleRight.symm (.inr middleUnpaged)).mpr between.1
    have middleLeft := (listedBefore_unpaged leftMiddle.symm (.inl middleUnpaged)).mpr between.2
    have back := order.trans right rightMember middle middleMember left leftMember rightMiddle
      middleLeft
    rw [order.asymm leftMember rightMember leftRight] at back
    contradiction
  · intro follows
    refine ⟨fun job _ => listedBefore_irrefl job, ?_, fun left leftMember right rightMember =>
      listedBefore_total leftMember rightMember⟩
    intro a aMember b bMember c cMember first second
    by_cases ab : a.createdAt.unixNano = b.createdAt.unixNano
    · by_cases bc : b.createdAt.unixNano = c.createdAt.unixNano
      · exact listedBefore_trans_at follows aMember bMember cMember ab bc first second
      · rw [listedBefore_of_ne bc] at second
        rw [listedBefore_of_ne (by rwa [ab])]
        omega
    · rw [listedBefore_of_ne ab] at first
      have later : b.createdAt.unixNano ≤ c.createdAt.unixNano := by
        by_cases bc : b.createdAt.unixNano = c.createdAt.unixNano
        · exact bc.le
        · exact ((listedBefore_of_ne bc).mp second).le
      rw [listedBefore_of_ne (by omega)]
      omega

/-! ## Listings of one map in two orders -/

theorem childCount_perm {d' : Store} (perm : d'.jobs.Perm d.jobs) (id : String) :
    d'.childCount id = d.childCount id := perm.countP_eq _

theorem listJobs_perm {d' : Store} (follows : d.PagesFollowIds) (perm : d'.jobs.Perm d.jobs)
    (filter : JobFilter) : d'.listJobs filter = d.listJobs filter := by
  have order := (strictTotalOn_iff d).mpr follows
  have found : d.jobs.filter (matchesFilter filter) ⊆ d.jobs := List.filter_sublist.subset
  have copied := (order.mono found).map
    (fun left _ right _ => (rfl : listedBefore { left with childCount := d.childCount left.id }
      { right with childCount := d.childCount right.id } = listedBefore left right))
  have sameCopies : (fun job : Job => { job with childCount := d'.childCount job.id }) =
      fun job => { job with childCount := d.childCount job.id } := by
    funext job
    rw [childCount_perm perm]
  rw [listJobs, listJobs, sameCopies]
  exact copied.insertionSort_eq ((perm.filter _).map _)

/-- Both halves of the law: the comparison is a strict total order on the jobs, and the
order of the iteration never shows. -/
structure WellListed (d : Store) : Prop where
  order : StrictTotalOn listedBefore d.jobs
  unique : ∀ d' : Store, d'.jobs.Perm d.jobs → ∀ filter, d'.listJobs filter = d.listJobs filter

theorem wellListed_iff_pagesFollowIds (d : Store) : d.WellListed ↔ d.PagesFollowIds := by
  rw [← strictTotalOn_iff]
  constructor
  · exact fun listed => listed.order
  · intro order
    exact ⟨order, fun d' perm filter => listJobs_perm ((strictTotalOn_iff d).mp order) perm filter⟩

def listedJob (id : String) (metadata : List (String × String)) : Job :=
  .child id none "pull_page" "{}" "" metadata Time.zero

/-- Two pages in the opposite order of their ids, and a job without an index between them. -/
def pageBetween : Store where
  jobs :=
    [listedJob "a" [("page_index", "2")], listedJob "b" [], listedJob "c" [("page_index", "1")]]
  keys := by decide

def pageBetweenShifted : Store where
  jobs :=
    [listedJob "b" [], listedJob "c" [("page_index", "1")], listedJob "a" [("page_index", "2")]]
  keys := by decide

/-- `a` before `b` before `c` by their ids, and `c` before `a` by their pages: each iteration
order is a listing of its own. -/
theorem listJobs_depends_on_iteration : ¬ ∀ d : Store, d.WellListed := by
  intro wellListed
  have same := (wellListed pageBetween).unique pageBetweenShifted (by decide)
    { status := "", type := "", metadata := [], parentID := none, all := true }
  have different : (pageBetweenShifted.listJobs
      { status := "", type := "", metadata := [], parentID := none, all := true }).map Job.id ≠
      (pageBetween.listJobs
        { status := "", type := "", metadata := [], parentID := none, all := true }).map Job.id := by
    decide
  exact different (congrArg (List.map Job.id) same)

end Store

end Kiyomi.Queue.InMemory
