/-!
# The Built-In Template

The offer message that is used as long as nobody has written another.
-/

namespace Outreach.Message

/-- The lines of the built-in template, with a block for each part of an offer that a deal may
lack. -/
def builtInLines : List String :=
  ["HI \x7bcontactPerson\x7d，如剛剛討論，提供方案給 \x7bkolName\x7d 參考唷",
   "",
   "<<< 合作模式與分潤 >>>",
   "🔹採 \x7bprofitShare\x7d 分潤機制[if: guaranteedMinimum|，並提供 \x7bguaranteedMinimum\x7d 保底]",
   "🔹透過 \x7bkolName\x7d 的專屬頁面成交，提供銷售額的 \x7bprofitShare\x7d 作為回饋(扣除物流成本)",
   "[if: bonusAmount|🔹除分潤方案，將額外提供 \x7bbonusAmount\x7d 作為加碼獎勵]",
   "[if: performanceThreshold|🔹如果業績達到 \x7bperformanceThreshold\x7d，則分潤提升至 \x7bprofitShareBonus\x7d]",
   "[if: fanOffer|<<<粉絲福利>>>",
   "\x7bfanOffer\x7d]",
   "",
   "<<< 成效追蹤 >>>",
   "🔹會為 \x7bkolName\x7d 建立專屬頁面與連結",
   "🔹提供報表連結，方便追蹤轉單並調整內容節奏",
   "",
   "<<< 時程安排 >>>",
   "🔹初期合作至 \x7bendDate\x7d，後續可思考長期合作",
   "[if: sendHandle=是|🔹會再補 7DS-ZAPA 手把，日後也可以評估薩爾達無雙的合作案喔]",
   "[if: sendHandle=否|🔹如果有需要素材，我們都可以提供免費的素材包]",
   "",
   "再麻煩 \x7bkolName\x7d 評估看看🙏期待可以合作一波~~"]

/-- The built-in template, its lines with a line feed between each two. -/
def builtInTemplate : String :=
  String.intercalate "\n" builtInLines

end Outreach.Message
