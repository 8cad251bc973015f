import RecordFilter.Calendar.Pattern

namespace RecordFilter.Calendar

-- Timestamps of the Internet profile (RFC 3339) carry their distance from universal
-- time, which is less than a day, and have exactly as many digits as the profile says.
def timestamp? (text : Text) : Option DateTime := do
  let (year, text) ← exactDigits? 4 text
  let text ← Text.dropLead? ['-'] text
  let (month, text) ← exactDigits? 2 text
  let text ← Text.dropLead? ['-'] text
  let (day, text) ← exactDigits? 2 text
  let text ← dropTimeMark? text
  let (hour, text) ← exactDigits? 2 text
  let text ← Text.dropLead? [':'] text
  let (minute, text) ← exactDigits? 2 text
  let text ← Text.dropLead? [':'] text
  let (second, text) ← exactDigits? 2 text
  let (clues, text) ← Field.fraction.read? Clues.empty text
  let (offset, text) ← zuluOffset? (Text.dropLead? [':']) false text
  let clues ← clues.with? .year year
  let clues ← clues.with? .month month
  let clues ← clues.with? .day day
  let clues ← clues.withHour? hour
  let clues ← clues.with? .minute minute
  let clues ← clues.with? .second second
  let moment ← clues.moment?
  if text.isEmpty ∧ offset.natAbs < 86400 then moment.earlier? offset else none

end RecordFilter.Calendar
